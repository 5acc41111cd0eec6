import SignalGateway.Lib.Contracts
import SignalGateway.Outbound
import SignalGateway.Proofs.Batches
import SignalGateway.Proofs.Ranges
import SignalGateway.Proofs.Routing

/-!
# `SignalGateway.Proofs.Outbound`: what a delivery posts to the daemon

`Posted` says what holds of the parameters of an RPC: the account is the gateway's, the
destination is the chat, and the styles are valid ranges of the message. The destination of a
direct chat is what the lookup of the recipient returned.

The methods of the client uphold this for the chat they are called with, as contracts over any
answers. A delivery calls them for the recipient of its payload only, so `deliver_posts` says the
same of every POST of a delivery.

The contracts go from the bottom to the top:

* `does_applyDestination` and `does_rpc`: the two helpers that every method calls.
* `does_send`, `does_sendVoiceNote`, `does_sendReaction`, `does_sendAttachments`: one for each
  method of the client. `posted_text` and `posted_plain` are about their parameters.
* `dispatchCallback_toRecipient`: whom a delivery calls the methods for.
* `deliver_contract`: both together, with `contract_handle`.
-/

set_option autoImplicit false

namespace SignalGateway.Proofs.Outbound

open SignalGateway.Envelope SignalGateway.EngineClient SignalGateway.SignalClient
open SignalGateway.Markdown SignalGateway.Proofs.Markdown
open SignalGateway.Rpc (SendError)
open SignalGateway.Client (batchParams)
open Prog hiding pure bind
open PyChar

/-! ### The parameters of an RPC -/

/-- The styles of an RPC. -/
def stylesOf (params : List (PyStr × Json)) : List Json :=
  match params.lookup (lit "textStyle"), params.lookup (lit "textStyles") with
  | some style, _ => [style]
  | none, some (.arr styles) => styles
  | none, _ => []

/-- The destination is the chat. `resolved` are the recipients found for it. -/
def ToChat (chatId : PyStr) (resolved : Json → Prop) (params : List (PyStr × Json)) : Prop :=
  if groupPrefix <+: chatId then
    params.lookup (lit "groupId") = some (.str (chatId.drop groupPrefix.length)) ∧
      params.lookup (lit "recipient") = none
  else
    params.lookup (lit "groupId") = none ∧
      ∃ recipient, resolved recipient ∧ params.lookup (lit "recipient") = some (.arr [recipient])

/-- The styles are valid ranges of the message. -/
def WellStyled (params : List (PyStr × Json)) : Prop :=
  ∀ message, params.lookup (lit "message") = some (.str message) →
    (∀ c ∈ message, isSurrogate (code c) = false) → ∀ style ∈ stylesOf params,
      ∃ s r, style = .str (lit r.format) ∧ ValidRange message s r

/-- What holds of the parameters of an RPC for a chat. -/
structure Posted (settings : Settings) (chatId : PyStr) (resolved : Json → Prop)
    (params : List (PyStr × Json)) : Prop where
  account : params.lookup (lit "account") = some (.str settings.signalAccount)
  destination : ToChat chatId resolved params
  styles : WellStyled params

variable {settings : Settings} {chatId : PyStr} {resolved : Json → Prop}

/-- Parameters without a destination. -/
structure Base (settings : Settings) (params : List (PyStr × Json)) : Prop where
  account : params.lookup (lit "account") = some (.str settings.signalAccount)
  groupId : params.lookup (lit "groupId") = none
  recipient : params.lookup (lit "recipient") = none

/-- The parameter of the destination. -/
def IsDestination (chatId : PyStr) (resolved : Json → Prop) (param : PyStr × Json) : Prop :=
  (groupPrefix <+: chatId ∧
      param = (lit "groupId", .str (chatId.drop groupPrefix.length))) ∨
    ¬ groupPrefix <+: chatId ∧ ∃ recipient, resolved recipient ∧
      param = (lit "recipient", .arr [recipient])

/-- Another key. -/
theorem lookup_singleton_ne {key key' : PyStr} {value : Json} (h : key ≠ key') :
    [(key', value)].lookup key = none := by
  rw [List.lookup_cons, beq_eq_false_iff_ne.mpr h]
  rfl

/-- The destination stands behind the other parameters, and in front of those of the batch. -/
theorem posted_of_destination {base extra : List (PyStr × Json)} {param : PyStr × Json}
    (hbase : Base settings base) (hparam : IsDestination chatId resolved param)
    (hgroup : extra.lookup (lit "groupId") = none)
    (hrecipient : extra.lookup (lit "recipient") = none)
    (hstyles : WellStyled (base ++ [param] ++ extra)) :
    Posted settings chatId resolved (base ++ [param] ++ extra) := by
  have hlookup : ∀ key, (base ++ [param] ++ extra).lookup key
      = ((base.lookup key).or ([param].lookup key)).or (extra.lookup key) := by
    intro key
    rw [List.lookup_append, List.lookup_append]
  have hne : (lit "groupId" : PyStr) ≠ lit "recipient" := by decide
  refine ⟨?_, ?_, hstyles⟩
  · rw [hlookup, hbase.account]
    rfl
  · rcases hparam with ⟨h, rfl⟩ | ⟨h, recipient, hresolved, rfl⟩
    · rw [ToChat, if_pos h, hlookup, hlookup, hbase.groupId, hbase.recipient, hrecipient,
        lookup_singleton_ne hne.symm]
      exact ⟨by simp, rfl⟩
    · rw [ToChat, if_neg h, hlookup, hlookup, hbase.groupId, hbase.recipient, hgroup,
        lookup_singleton_ne hne]
      exact ⟨rfl, recipient, hresolved, by simp⟩

/-! ### The calls of the client -/

/-- A call of the client for a chat. -/
def ClientOp (settings : Settings) (chatId : PyStr) (resolved : Json → Prop) : Client.Op → Prop
  | .resolveRecipient chatId' => chatId' = chatId
  | .rpc (.post _ params _) => Posted settings chatId resolved params
  | _ => True

section
variable {repr : Json → Except PyError PyStr}
  {listGt : List Json → List Json → Except PyError Bool} {isWord : Nat → Bool}
  {A : Client.calls.Event → Prop}
  (hA : ∀ recipient, A ⟨.resolveRecipient chatId, .ok recipient⟩ → resolved recipient)

/-- What a method does for the chat, if the answers are as assumed. -/
abbrev Does (settings : Settings) (chatId : PyStr) (resolved : Json → Prop)
    (A : Client.calls.Event → Prop) {α : Type} (p : Client.Action α) (Q : α → Prop) : Prop :=
  p.Contract A (ClientOp settings chatId resolved) Q

include hA in
/-- The destination is added to the parameters. -/
theorem does_applyDestination (base : List (PyStr × Json)) :
    Does settings chatId resolved A (Client.applyDestination base chatId) fun params =>
      ∃ param, IsDestination chatId resolved param ∧ params = base ++ [param] := by
  unfold Client.applyDestination SignalClient.applyDestination
  split
  · next h =>
    exact .pure ⟨_, .inl ⟨List.isPrefixOf_iff_prefix.mp h, rfl⟩, rfl⟩
  · next h =>
    refine .call rfl fun (answer : Except PyError Json) hanswer => ?_
    cases answer with
    | error e => exact .raise _
    | ok recipient =>
      exact .pure ⟨_, .inr ⟨fun hp => h (List.isPrefixOf_iff_prefix.mpr hp), recipient,
        hA recipient hanswer, rfl⟩, rfl⟩

/-- An RPC posts what it is given. -/
theorem does_rpc {method : String} {params : List (PyStr × Json)}
    (h : Posted settings chatId resolved params) :
    Does settings chatId resolved A (Client.rpc repr listGt method params) fun _ => True :=
  .call h fun _ _ => .pure trivial

/-- A batch posts what it is given. -/
theorem does_sendAttachmentBatch {params : List (PyStr × Json)} {n : ℤ}
    (h : Posted settings chatId resolved params) :
    Does settings chatId resolved A (Client.sendAttachmentBatch repr listGt params n)
      fun _ => True := by
  refine contract_lift (A := fun _ => True) (G := Batches.BatchOp params n)
    (fun _ _ _ => trivial) ?_ (contract_of_only (Batches.sendAttempts_only params n _ _) fun _ h => h)
  intro op hop
  cases op with
  | post method params' timeout =>
    obtain rfl : params' = params := hop
    exact h
  | _ => exact trivial

/-! ### Sending a text -/

/-- The styles of a text that was converted. -/
theorem validRange_of_mem {message plain : PyStr} {ranges : List StyleRange}
    (h : markdownToSignal isWord message = .ok (plain, ranges))
    (hplain : ∀ c ∈ plain, isSurrogate (code c) = false) :
    ∀ r ∈ ranges, ∃ s, ValidRange plain s r := by
  intro r hr
  obtain ⟨s, hs, hle, hrange⟩ := (mem_ranges h r).mp hr
  exact ⟨s, validRange_of_toRange hplain (one_le_length_of_mem_spans isWord message s hs) hle
    hrange⟩

/-- The text styles hold no other key. -/
theorem lookup_textStyleParams {key : PyStr} (h : key ≠ lit "textStyle")
    (h' : key ≠ lit "textStyles") : ∀ styles : List PyStr,
      (Client.textStyleParams styles).lookup key = none
  | [] => rfl
  | [_] => lookup_singleton_ne h
  | _ :: _ :: _ => lookup_singleton_ne h'

/-- A list of styles is read back, whatever stands around it. -/
theorem stylesOf_textStyleParams (before after : List (PyStr × Json)) (styles : List PyStr)
    (hbefore : before.lookup (lit "textStyle") = none)
    (hbefore' : before.lookup (lit "textStyles") = none)
    (hafter : after.lookup (lit "textStyle") = none)
    (hafter' : after.lookup (lit "textStyles") = none) :
    stylesOf (before ++ Client.textStyleParams styles ++ after) = styles.map .str := by
  have hne : (lit "textStyle" : PyStr) ≠ lit "textStyles" := by decide
  have hlookup : ∀ key, before.lookup key = none → after.lookup key = none →
      (before ++ Client.textStyleParams styles ++ after).lookup key
        = (Client.textStyleParams styles).lookup key := by
    intro key hb ha
    rw [List.lookup_append, List.lookup_append, hb, ha]
    simp
  rw [stylesOf, hlookup _ hbefore hafter, hlookup _ hbefore' hafter']
  match styles with
  | [] => rfl
  | [style] => simp [Client.textStyleParams]
  | style :: style' :: styles =>
    rw [show Client.textStyleParams (style :: style' :: styles)
      = [(lit "textStyles", .arr ((style :: style' :: styles).map .str))] from rfl,
      lookup_singleton_ne hne]
    simp

/-- The destination holds no other key. -/
theorem lookup_destination {key : PyStr} {param : PyStr × Json}
    (hparam : IsDestination chatId resolved param) (h : key ≠ lit "groupId")
    (h' : key ≠ lit "recipient") : [param].lookup key = none := by
  rcases hparam with ⟨-, rfl⟩ | ⟨-, recipient, -, rfl⟩
  · exact lookup_singleton_ne h
  · exact lookup_singleton_ne h'

/-- A converted text is posted as it should be. -/
theorem posted_text {plain : PyStr} {ranges : List StyleRange} {message : PyStr}
    {param : PyStr × Json} (h : markdownToSignal isWord message = .ok (plain, ranges))
    (hparam : IsDestination chatId resolved param) :
    Posted settings chatId resolved
      (dict [("account", .str settings.signalAccount), ("message", .str plain)]
        ++ Client.textStyleParams (ranges.map fun r => lit r.format) ++ [param]) := by
  have hstyles := stylesOf_textStyleParams
    (dict [("account", .str settings.signalAccount), ("message", .str plain)]) [param]
    (ranges.map fun r => lit r.format) (by simp [Routing.lookup_dict, List.lookup_cons])
    (by simp [Routing.lookup_dict, List.lookup_cons])
    (lookup_destination hparam (by decide) (by decide))
    (lookup_destination hparam (by decide) (by decide))
  -- The styles do not touch the other keys.
  have hkey : ∀ key : String, (lit key : PyStr) ≠ lit "textStyle" →
      (lit key : PyStr) ≠ lit "textStyles" →
      (dict [("account", .str settings.signalAccount), ("message", .str plain)]
        ++ Client.textStyleParams (ranges.map fun r => lit r.format)).lookup (lit key)
      = [("account", Json.str settings.signalAccount), ("message", .str plain)].lookup key := by
    intro key hne hne'
    rw [List.lookup_append, lookup_textStyleParams hne hne', Routing.lookup_dict, Option.or_none]
  have hbase : Base settings (dict [("account", .str settings.signalAccount),
      ("message", .str plain)] ++ Client.textStyleParams (ranges.map fun r => lit r.format)) :=
    ⟨hkey "account" (by decide) (by decide), hkey "groupId" (by decide) (by decide),
      hkey "recipient" (by decide) (by decide)⟩
  rw [← List.append_nil (_ ++ [param])]
  refine posted_of_destination hbase hparam rfl rfl fun text htext hclean style hstyle => ?_
  rw [List.append_nil] at htext hstyle
  rw [hstyles] at hstyle
  rw [List.lookup_append, hkey "message" (by decide) (by decide)] at htext
  obtain rfl : plain = text := by simpa [List.lookup_cons] using htext
  obtain ⟨_, hmem, rfl⟩ := List.mem_map.mp hstyle
  obtain ⟨r, hr, rfl⟩ := List.mem_map.mp hmem
  obtain ⟨s, hvalid⟩ := validRange_of_mem h hclean r hr
  exact ⟨s, r, rfl, hvalid⟩

include hA in
/-- What `send` does. -/
theorem does_send (message : PyStr) :
    Does settings chatId resolved A
      (Client.send repr listGt isWord settings chatId message [] none) fun _ => True := by
  refine contract_bind (Q := fun out => ∃ ranges : List StyleRange,
    markdownToSignal isWord message = .ok (out.1, ranges) ∧
      out.2 = ranges.map fun r => lit r.format) (contract_ofExcept ?_) ?_
  · rintro ⟨plain, styles⟩ hout
    unfold Client.styled at hout
    cases h : markdownToSignal isWord message with
    | error e =>
      rw [h] at hout
      cases hout
    | ok out =>
      rw [h] at hout
      cases hout
      exact ⟨out.2, rfl, rfl⟩
  · rintro ⟨plain, _⟩ ⟨ranges, h, rfl⟩
    refine contract_bind (does_applyDestination hA _) ?_
    rintro _ ⟨param, hparam, rfl⟩
    exact contract_bind (does_rpc (posted_text h hparam)) fun _ _ => .pure trivial

/-! ### The other methods -/

/-- Parameters of literal keys, without a destination and without styles. -/
structure Plain (settings : Settings) (items : List (String × Json)) : Prop where
  account : items.lookup "account" = some (.str settings.signalAccount)
  groupId : items.lookup "groupId" = none
  recipient : items.lookup "recipient" = none
  textStyle : items.lookup "textStyle" = none
  textStyles : items.lookup "textStyles" = none

/-- A message without styles. -/
theorem posted_plain (items more : List (String × Json)) {param : PyStr × Json}
    (hitems : Plain settings items) (hparam : IsDestination chatId resolved param)
    (hmore : ∀ key ∈ ["groupId", "recipient", "textStyle", "textStyles"], more.lookup key = none) :
    Posted settings chatId resolved (dict items ++ [param] ++ dict more) := by
  have hextra : ∀ key ∈ ["groupId", "recipient", "textStyle", "textStyles"],
      (dict more).lookup (lit key) = none := fun key hkey =>
    (Routing.lookup_dict more key).trans (hmore key hkey)
  have hbase : ∀ key, (dict items).lookup (lit key) = items.lookup key := Routing.lookup_dict items
  refine posted_of_destination
    ⟨(hbase _).trans hitems.account, (hbase _).trans hitems.groupId,
      (hbase _).trans hitems.recipient⟩ hparam (hextra _ (by simp)) (hextra _ (by simp)) ?_
  intro text _ _ style hstyle
  rw [stylesOf, List.lookup_append, List.lookup_append, List.lookup_append, List.lookup_append,
    hbase, hbase, hitems.textStyle, hitems.textStyles, hextra _ (by simp), hextra _ (by simp),
    lookup_destination hparam (by decide) (by decide),
    lookup_destination hparam (by decide) (by decide)] at hstyle
  exact absurd hstyle List.not_mem_nil

/-- Parameters without styles are posted as they should be. -/
theorem posted_bare {items : List (String × Json)} {param : PyStr × Json}
    (hitems : Plain settings items) (hparam : IsDestination chatId resolved param) :
    Posted settings chatId resolved (dict items ++ [param]) := by
  have h := posted_plain items [] hitems hparam fun _ _ => rfl
  rwa [show dict [] = [] from rfl, List.append_nil] at h

include hA in
/-- What `send_voice_note` does. -/
theorem does_sendVoiceNote (path : PyStr) :
    Does settings chatId resolved A (Client.sendVoiceNote repr listGt settings chatId path)
      fun _ => True := by
  refine contract_bind (does_applyDestination hA _) ?_
  rintro _ ⟨param, hparam, rfl⟩
  exact does_sendAttachmentBatch (posted_bare ⟨rfl, rfl, rfl, rfl, rfl⟩ hparam)

include hA in
/-- What `send_reaction` does. -/
theorem does_sendReaction (emoji : PyStr) (targetAuthor : Json) (targetTimestamp : ℤ) :
    Does settings chatId resolved A
      (Client.sendReaction repr listGt settings chatId emoji targetAuthor targetTimestamp)
      fun _ => True := by
  refine contract_bind (does_applyDestination hA _) ?_
  rintro _ ⟨param, hparam, rfl⟩
  exact contract_bind (does_rpc (posted_bare ⟨rfl, rfl, rfl, rfl, rfl⟩ hparam))
    fun _ _ => .pure trivial

include hA in
/-- What the notice of a pause does. -/
theorem does_notifyBatchPacing (next total : Nat) (wait : ℚ) :
    Does settings chatId resolved A
      (Client.notifyBatchPacing repr listGt isWord settings chatId next total wait)
      fun _ => True := by
  refine contract_tryCatch (contract_bind (Q := fun _ => True)
    (contract_ofExcept fun _ _ => trivial) fun text _ => ?_) fun _ => .pure trivial
  exact contract_bind (does_send hA text) fun _ _ => .pure trivial

include hA in
/-- What the loop over the batches does. -/
theorem does_sendBatches {message : PyStr} {total : Nat} {param : PyStr × Json}
    (hparam : IsDestination chatId resolved param) (batches : List (List PyStr)) :
    ∀ (idx : Nat) (allOk : Bool), Does settings chatId resolved A
      (Client.sendBatches repr listGt isWord settings chatId
        (dict [("account", .str settings.signalAccount)] ++ [param]) message total idx allOk
        batches) fun _ => True := by
  induction batches with
  | nil => exact fun _ _ => .pure trivial
  | cons batch batches ih =>
    intro idx allOk
    have hposted : Posted settings chatId resolved
        (batchParams (dict [("account", .str settings.signalAccount)] ++ [param]) message idx
          batch) := by
      have h := posted_plain [("account", .str settings.signalAccount)]
        [("message", .str (if idx = 0 then message else [])),
          ("attachments", .arr (batch.map .str))] ⟨rfl, rfl, rfl, rfl, rfl⟩ hparam
        (by simp [List.lookup_cons])
      rw [batchParams, addParam, addParam, List.append_assoc]
      exact h
    -- With or without the notice, the batch is sent and the loop goes on.
    have hrest : Does settings chatId resolved A
        (do
          let ok ← Client.sendAttachmentBatch repr listGt (batchParams
            (dict [("account", .str settings.signalAccount)] ++ [param]) message idx batch)
            batch.length
          Client.sendBatches repr listGt isWord settings chatId
            (dict [("account", .str settings.signalAccount)] ++ [param]) message total (idx + 1)
            (if ok then allOk else false) batches) fun _ => True :=
      contract_bind (does_sendAttachmentBatch hposted) fun _ _ => ih _ _
    refine .call trivial fun (wait : Except PyError ℚ) _ =>
      contract_bind (Q := fun _ => True) (contract_ofExcept fun _ _ => trivial) fun wait _ => ?_
    split
    · exact contract_bind (does_notifyBatchPacing hA _ _ _) fun _ _ => hrest
    · exact hrest

include hA in
/-- What `send_attachments` does. -/
theorem does_sendAttachments (filePaths : List PyStr) (message : PyStr) :
    Does settings chatId resolved A
      (Client.sendAttachments repr listGt isWord settings chatId filePaths message)
      fun _ => True := by
  unfold Client.sendAttachments
  split
  · exact .pure trivial
  · refine contract_bind (does_applyDestination hA _) ?_
    rintro _ ⟨param, hparam, rfl⟩
    exact does_sendBatches hA hparam _ _ _

end

/-! ### Reactions -/

/-- An RPC of a reaction, or no RPC. -/
def ReactionOp : Client.Op → Prop
  | .rpc (.post method _ _) => method = lit "sendReaction"
  | .rpc _ | .resolveRecipient _ | .estimateWait _ => True

/-- The calls of a reaction. -/
theorem sendReaction_only {repr : Json → Except PyError PyStr}
    {listGt : List Json → List Json → Except PyError Bool} {chatId emoji : PyStr}
    {targetAuthor : Json} {targetTimestamp : ℤ} :
    (Client.sendReaction repr listGt settings chatId emoji targetAuthor targetTimestamp).Only
      ReactionOp := by
  refine only_bind ?_ fun params => only_bind ⟨rfl, fun _ => trivial⟩ fun _ => trivial
  unfold Client.applyDestination SignalClient.applyDestination
  split
  · exact trivial
  · exact ⟨trivial, fun recipient => only_bind (only_ofExcept _) fun _ => trivial⟩

/-! ### A delivery -/

section
open SignalGateway.Delivery SignalGateway.Dispatch SignalGateway.Proofs.Delivery

/-- A call that goes to the recipient of the payload. A reaction is one of the two last ones, on
the message that the payload answers. -/
def ToRecipient (payload : CallbackPayload) : Delivery.Op → Prop
  | .send chatId _ | .sendVoiceNote chatId _ | .sendAttachments chatId _ =>
      chatId = recipient payload
  | .sendReaction chatId emoji targetAuthor targetTimestamp =>
      chatId = recipient payload ∧ (emoji = completeReaction ∨ emoji = errorReaction) ∧
        targetAuthor = payload.userId ∧ intStr payload.messageKey = .ok targetTimestamp
  | .openWorkspace | .closeWorkspace | .closeClient | .mkdir _ | .stream _ _
  | .writeBytes _ _ => True

variable {netlocOk : PyStr → Bool} {payload : CallbackPayload}

/-- The audio names no recipient. -/
theorem toRecipient_of_audioOp {op : Delivery.Op} (h : AudioOp op) : ToRecipient payload op := by
  cases op <;> first | exact trivial | exact h.elim

/-- The text goes to the recipient. -/
theorem toRecipient_of_textOp {op : Delivery.Op} (h : TextOp (recipient payload) op) :
    ToRecipient payload op := by
  cases op with
  | send chatId message => exact h
  | _ => exact False.elim h

/-- The voice note goes to the recipient. -/
theorem toRecipient_of_voiceOp {op : Delivery.Op} (h : VoiceOp (recipient payload) op) :
    ToRecipient payload op := by
  rcases h with h | ⟨path, rfl⟩
  · exact toRecipient_of_audioOp h
  · exact rfl

/-- The attachments go to the recipient. -/
theorem toRecipient_of_attachmentOp {op : Delivery.Op} (h : AttachmentOp (recipient payload) op) :
    ToRecipient payload op := by
  rcases h with h | ⟨paths, rfl⟩
  · cases op <;> first | exact trivial | exact h.elim
  · exact rfl

/-- The reaction goes to the recipient. -/
theorem react_toRecipient {emoji : PyStr} (h : emoji = completeReaction ∨ emoji = errorReaction) :
    (react payload emoji).Only (ToRecipient payload) := by
  unfold react
  split
  · exact trivial
  · next htime =>
    exact only_tryCatch (only_bind ⟨⟨rfl, h, rfl, htime⟩, fun _ => only_ofExcept _⟩
      fun _ => trivial) fun _ => trivial

/-- The chunks go to the recipient. -/
theorem sendTextChunks_toRecipient (text : Option PyStr) :
    (sendTextChunks text settings (recipient payload)).Only (ToRecipient payload) :=
  (sendTextChunks_only text).mono fun _ => toRecipient_of_textOp

/-- All media go to the recipient. -/
theorem deliverMedia_toRecipient :
    (deliverMedia netlocOk settings payload (recipient payload)).Only (ToRecipient payload) :=
  only_bind (voicePart_only.mono fun _ => toRecipient_of_voiceOp) fun _ =>
    only_bind (textPart_only.mono fun _ => toRecipient_of_textOp) fun _ =>
      only_bind (attachmentPart_only.mono fun _ => toRecipient_of_attachmentOp) fun _ => trivial

/-- A complete reply goes to the recipient. -/
theorem dispatchComplete_toRecipient (ownsClient : Bool) :
    (dispatchComplete netlocOk settings ownsClient payload).Only (ToRecipient payload) := by
  have hreact : (react payload completeReaction).Only (ToRecipient payload) :=
    react_toRecipient (.inl rfl)
  unfold dispatchComplete
  split
  · refine only_bind (only_tryFinally ?_ ?_) fun reply => only_bind hreact fun _ => trivial
    · exact only_bind ⟨trivial, fun _ => only_ofExcept _⟩ fun _ =>
        only_tryFinally deliverMedia_toRecipient ⟨trivial, fun _ => trivial⟩
    · unfold closeClient
      split
      · exact ⟨trivial, fun _ => only_ofExcept _⟩
      · exact trivial
  · refine only_bind (sendTextChunks_toRecipient _) fun counts => only_bind hreact fun _ => ?_
    split <;> exact trivial

/-- Every callback goes to the recipient. -/
theorem dispatchCallback_toRecipient (ownsClient : Bool) :
    (dispatchCallback netlocOk settings ownsClient payload).Only (ToRecipient payload) := by
  unfold dispatchCallback
  split
  · exact only_bind ⟨rfl, fun _ => only_ofExcept _⟩ fun _ =>
      only_bind (react_toRecipient (.inr rfl)) fun _ => trivial
  · exact only_bind (sendTextChunks_toRecipient _) fun _ => trivial
  · exact trivial
  · exact dispatchComplete_toRecipient ownsClient

variable {repr : Json → Except PyError PyStr}
  {listGt : List Json → List Json → Except PyError Bool} {isWord : Nat → Bool}
  {workspace : PyStr} {A : Outbound.calls.Event → Prop}

/-- A call of a delivery to the chat. -/
def DeliveryOp (settings : Settings) (chatId : PyStr) (resolved : Json → Prop) :
    Outbound.Op → Prop
  | .client op => ClientOp settings chatId resolved op
  | .own _ => True

/-- A method of the client, in a delivery. -/
theorem contract_method {p : Client.Action Bool}
    (h : Does settings chatId resolved (fun ev => A ⟨.client ev.1, ev.2⟩) p fun _ => True) :
    (Outbound.method p).Contract A (DeliveryOp settings chatId resolved)
      fun _ => True := by
  have hlift : (p.lift Outbound.Op.client (fun _ x => x) Outbound.raised).Contract A
      (DeliveryOp settings chatId resolved) fun _ => True :=
    contract_lift (fun _ _ h => h) (fun _ h => h) h
  exact (contract_attempt hlift).mono fun _ _ => trivial

/-- A call that is not one of the client owes nothing. -/
theorem contract_own (op : Delivery.Op) :
    (Outbound.own op).Contract A (DeliveryOp settings chatId resolved)
      fun _ => True :=
  .call trivial fun _ _ => .pure trivial

/-- The calls of a delivery go to its recipient, if the lookups of the recipient return what
`resolved` says. -/
theorem deliver_contract (hA : ∀ recipient',
      A ⟨.client (.resolveRecipient (recipient payload)), .ok recipient'⟩ → resolved recipient') :
    (Outbound.deliver repr listGt isWord netlocOk settings workspace payload).Contract A
      (DeliveryOp settings (recipient payload) resolved) fun _ => True := by
  refine contract_handle (dispatchCallback_toRecipient true) fun op hop => ?_
  cases op with
  | send chatId message =>
    obtain rfl : chatId = recipient payload := hop
    exact contract_method (does_send hA message)
  | sendVoiceNote chatId path =>
    obtain rfl : chatId = recipient payload := hop
    exact contract_method (does_sendVoiceNote hA _)
  | sendAttachments chatId paths =>
    obtain rfl : chatId = recipient payload := hop
    exact contract_method (does_sendAttachments hA _ _)
  | sendReaction chatId emoji targetAuthor targetTimestamp =>
    obtain ⟨rfl, -, -, -⟩ := hop
    exact contract_method (does_sendReaction hA _ _ _)
  | openWorkspace => exact contract_own .openWorkspace
  | closeWorkspace => exact contract_own .closeWorkspace
  | closeClient => exact contract_own .closeClient
  | mkdir path => exact contract_own (.mkdir path)
  | stream url token => exact contract_own (.stream url token)
  | writeBytes path data => exact contract_own (.writeBytes path data)

/-- The recipients that the calls `t` have found for a chat. -/
def Resolved (t : List Outbound.calls.Event) (chatId : PyStr) (recipient : Json) : Prop :=
  (⟨.client (.resolveRecipient chatId), .ok recipient⟩ : Outbound.calls.Event) ∈ t

/-- Whenever a delivery has made some calls, each of its POSTs carries the account of the gateway,
goes to the recipient of the payload, and has styles that are valid ranges of its message. The
recipient of a direct chat is one that the delivery itself has looked up for this chat, and no
other chat is ever looked up. -/
theorem deliver_posts {t : List Outbound.calls.Event} {rest : Prog Outbound.calls PyError Bool}
    (h : After (Outbound.deliver repr listGt isWord netlocOk settings workspace payload) t rest) :
    ∀ ev ∈ t, DeliveryOp settings (recipient payload) (Resolved t (recipient payload)) ev.1 := by
  exact Contract.after h (deliver_contract fun _ hmem => hmem) fun ev hev => hev

end

end SignalGateway.Proofs.Outbound
