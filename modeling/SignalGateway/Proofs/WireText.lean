import SignalGateway.Proofs.Outbound
import SignalGateway.Proofs.Reply

/-!
# `SignalGateway.Proofs.WireText`: the text of a reply, as it is posted

`texts` are the messages that the daemon is sent, each with whether it took the message. For a
reply without media they are the converted chunks of the text, each once and in order, and the
delivery succeeds exactly if the daemon took them all (`text_on_the_wire`).

`texts` reads the messages off the RPCs. What an answer says about its message is `taken`, the
test of `_rpc` and `send`. The lemmas follow the loop of the source: `texts_send` for one chunk,
`texts_sends` for all of them, and `texts_reactions` for what comes behind.

A chunk that cannot be converted raises (`texts_send_error`, `texts_sends_error`). So
`text_on_the_wire` has a case for an error: the chunks in front of that one have been posted.
-/

set_option autoImplicit false

namespace SignalGateway.Proofs.Outbound

open SignalGateway.Envelope SignalGateway.EngineClient SignalGateway.Delivery
open SignalGateway.Dispatch SignalGateway.Markdown SignalGateway.Proofs.Delivery
open Prog hiding pure bind

variable {repr : Json → Except PyError PyStr}
  {listGt : List Json → List Json → Except PyError Bool} {isWord : Nat → Bool}
  {netlocOk : PyStr → Bool} {settings : Settings} {workspace : PyStr} {payload : CallbackPayload}

/-- Whether the daemon has taken a message. -/
def taken (repr : Json → Except PyError PyStr)
    (listGt : List Json → List Json → Except PyError Bool)
    (answer : Except PyError Rpc.Response) : Bool :=
  Client.isResult ((Rpc.rpcResult repr listGt false answer).toOption.getD .null)

/-- The message of a POST, and whether the daemon has taken it. -/
def clientText (repr : Json → Except PyError PyStr)
    (listGt : List Json → List Json → Except PyError Bool) :
    (op : Client.Op) → op.Answer → Option (Json × Bool)
  | .rpc (.post method params _), answer =>
      if method = lit "send" then
        some ((params.lookup (lit "message")).getD .null, taken repr listGt answer)
      else none
  | _, _ => none

/-- The messages that are posted, in order, each with whether the daemon has taken it. -/
def texts (repr : Json → Except PyError PyStr)
    (listGt : List Json → List Json → Except PyError Bool) (t : List Outbound.calls.Event) :
    List (Json × Bool) :=
  t.filterMap fun ev =>
    match ev with
    | ⟨.client op, answer⟩ => clientText repr listGt op answer
    | ⟨.own _, _⟩ => none

/-- The texts posted in two stretches. -/
@[simp] theorem texts_append (t t' : List Outbound.calls.Event) :
    texts repr listGt (t ++ t') = texts repr listGt t ++ texts repr listGt t' :=
  List.filterMap_append

/-- The messages among the calls of the client. -/
def clientTexts (repr : Json → Except PyError PyStr)
    (listGt : List Json → List Json → Except PyError Bool) (t : List Client.calls.Event) :
    List (Json × Bool) := t.filterMap fun ev => clientText repr listGt ev.1 ev.2

/-- The same for the calls of the client. -/
@[simp] theorem clientTexts_append (t t' : List Client.calls.Event) :
    clientTexts repr listGt (t ++ t') = clientTexts repr listGt t ++ clientTexts repr listGt t' :=
  List.filterMap_append

/-- The texts of the calls of the client. -/
theorem texts_of_client
    {us : List ((op : Client.calls.Op) × Outbound.calls.Answer (Outbound.Op.client op))} :
    texts repr listGt (us.map fun u => ⟨.client u.1, u.2⟩)
      = clientTexts repr listGt (us.map fun u => ⟨u.1, u.2⟩) := by
  rw [texts, clientTexts, List.filterMap_map, List.filterMap_map]
  rfl

/-- The destination is looked up without a message. -/
theorem runs_applyDestination {base params : List (PyStr × Json)} {chatId : PyStr}
    {t : List Client.calls.Event} (h : Runs (Client.applyDestination base chatId) t (.ok params)) :
    clientTexts repr listGt t = [] ∧
      ∃ param, (param.1 = lit "groupId" ∨ param.1 = lit "recipient") ∧ params = base ++ [param] := by
  unfold Client.applyDestination SignalClient.applyDestination at h
  split at h
  · obtain ⟨rfl, hparams⟩ := runs_pure.mp h
    exact ⟨rfl, _, .inl rfl, Except.ok.inj hparams⟩
  · obtain ⟨recipient, t', rfl, hrest⟩ := runs_call.mp h
    cases recipient with
    | error e => cases hrest
    | ok recipient =>
      obtain ⟨rfl, hparams⟩ := runs_pure.mp hrest
      exact ⟨rfl, _, .inr rfl, Except.ok.inj hparams⟩

/-- The text of `send` is the converted message. -/
theorem styled_eq_ok {message plain : PyStr} {styles : List PyStr}
    (h : .ok (plain, styles) = (Client.styled isWord message none).mapError
      Rpc.SendError.other) :
    ∃ ranges, markdownToSignal isWord message = .ok (plain, ranges) := by
  unfold Client.styled at h
  cases hconverted : markdownToSignal isWord message with
  | error e =>
    rw [hconverted] at h
    cases h
  | ok out =>
    rw [hconverted] at h
    cases h
    exact ⟨out.2, rfl⟩

/-- A `send` that returns posts the converted text once, and reports whether it was taken. -/
theorem texts_send {chatId message : PyStr} {ok : Bool} {t : List Outbound.calls.Event}
    (h : Runs (Outbound.method (Client.send repr listGt isWord settings chatId message [] none)) t
      (.ok (.ok ok))) :
    ∃ plain styles, markdownToSignal isWord message = .ok (plain, styles) ∧
      texts repr listGt t = [(.str plain, ok)] := by
  obtain ⟨r, hr, h⟩ := runs_attempt.mp h
  obtain rfl := Except.ok.inj hr
  obtain ⟨us, r', rfl, hend, h⟩ := runs_lift h
  obtain rfl : r' = .ok ok := by
    cases r' with
    | ok ok' => exact congrArg Except.ok (Except.ok.inj hend).symm
    | error e => cases hend
  rw [texts_of_client]
  obtain ⟨⟨plain, styles⟩, t₁, t₂, ht, hstyled, h⟩ := h.split
  obtain ⟨ranges, hconverted⟩ := styled_eq_ok (runs_ofExcept.mp hstyled).2
  obtain ⟨rfl, -⟩ := runs_ofExcept.mp hstyled
  obtain ⟨params, t₃, t₄, rfl, hparams, h⟩ := h.split
  -- The lookup of the recipient sends no text.
  have hdestination : clientTexts repr listGt t₃ = [] ∧ _ := runs_applyDestination hparams
  obtain ⟨hnil, param, hkey, rfl⟩ := hdestination
  obtain ⟨answer, t₅, rfl, hreturn⟩ := runs_call.mp h
  obtain ⟨rfl, hok⟩ := runs_pure.mp hreturn
  refine ⟨plain, ranges, hconverted, ?_⟩
  rw [ht, List.nil_append, clientTexts_append, hnil, List.nil_append]
  have hmessage : (dict [("account", .str settings.signalAccount), ("message", .str plain)]
      ++ Client.textStyleParams styles ++ [param]).lookup (lit "message") = some (.str plain) := by
    rw [List.append_assoc, List.lookup_append, Routing.lookup_dict]
    rfl
  show [_] = _
  rw [hmessage, Except.ok.inj hok]
  rfl

/-- A reaction posts no text. -/
theorem clientText_eq_none {op : Client.Op} (h : ReactionOp op) (answer : op.Answer) :
    clientText repr listGt op answer = none := by
  cases op with
  | rpc op =>
    cases op with
    | post method params timeout =>
      obtain rfl : method = lit "sendReaction" := h
      have hne : (lit "sendReaction" : PyStr) ≠ lit "send" := by decide
      rw [clientText, if_neg hne]
    | _ => rfl
  | _ => rfl

/-- A reaction posts no message. -/
theorem texts_sendReaction {chatId emoji targetAuthor : PyStr} {targetTimestamp : ℤ}
    {t : List Outbound.calls.Event} {r : Except Empty (Except PyError Bool)}
    (h : Runs (Outbound.perform repr listGt isWord settings workspace
      (.sendReaction chatId emoji targetAuthor targetTimestamp)) t r) :
    texts repr listGt t = [] := by
  have honly : (Outbound.perform repr listGt isWord settings workspace
      (.sendReaction chatId emoji targetAuthor targetTimestamp)).Only
      fun op : Outbound.Op => ∃ op', op = .client op' ∧ ReactionOp op' :=
    only_attempt (only_lift sendReaction_only fun op hop => ⟨op, rfl, hop⟩)
  refine List.filterMap_eq_nil_iff.mpr fun ev hev => ?_
  obtain ⟨op, hop, hreaction⟩ := honly.runs h ev hev
  obtain ⟨op', answer⟩ := ev
  obtain rfl : op' = .client op := hop
  exact clientText_eq_none hreaction answer

/-- A `send` that raises posts nothing. -/
theorem texts_send_error {chatId message : PyStr} {e : PyError} {t : List Outbound.calls.Event}
    (h : Runs (Outbound.method (Client.send repr listGt isWord settings chatId message [] none)) t
      (.ok (.error e))) : texts repr listGt t = [] := by
  obtain ⟨r, hr, h⟩ := runs_attempt.mp h
  obtain rfl := Except.ok.inj hr
  obtain ⟨us, r', rfl, hend, h⟩ := runs_lift h
  rw [texts_of_client]
  cases r' with
  | ok ok' => cases hend
  | error e' =>
    rcases runs_bind.mp h with ⟨⟨plain, styles⟩, t₁, t₂, ht, hstyled, h⟩ | ⟨_, _, hstyled⟩
    · obtain ⟨rfl, -⟩ := runs_ofExcept.mp hstyled
      rcases runs_bind.mp h with ⟨params, t₃, t₄, _, _, h⟩ | ⟨_, _, h⟩
      · -- the RPC does not raise
        obtain ⟨answer, t₅, -, hreturn⟩ := runs_call.mp h
        cases (runs_pure.mp hreturn).2
      · rw [ht, List.nil_append]
        unfold Client.applyDestination SignalClient.applyDestination at h
        split at h
        · cases h
        · obtain ⟨recipient, t', rfl, hrest⟩ := runs_call.mp h
          cases recipient with
          | ok recipient => cases (runs_pure.mp hrest).2
          | error e =>
            obtain ⟨rfl, -⟩ := runs_raise.mp hrest
            rfl
    · obtain ⟨hnil, -⟩ := runs_ofExcept.mp hstyled
      rw [hnil]
      rfl

/-- The chunk is converted to the text. -/
def Converted (isWord : Nat → Bool) (chunk plain : PyStr) : Prop :=
  ∃ styles, markdownToSignal isWord chunk = .ok (plain, styles)

/-- The sends of the chunks post them, each once and in order. -/
theorem texts_sends {chatId : PyStr} {rest : List Delivery.calls.Event} :
    ∀ {chunks : List PyStr} {oks : List Bool} {ts : List (List Outbound.calls.Event)},
      oks.length = chunks.length →
      Handled (Outbound.perform repr listGt isWord settings workspace)
        (sendEvents chatId chunks oks ++ rest) ts →
      ∃ plains ts', List.Forall₂ (Converted isWord) chunks plains ∧
        Handled (Outbound.perform repr listGt isWord settings workspace) rest ts' ∧
        texts repr listGt ts.flatten
          = (plains.map .str).zip oks ++ texts repr listGt ts'.flatten := by
  intro chunks
  induction chunks with
  | nil =>
    intro oks ts hlen hts
    obtain rfl := List.length_eq_zero_iff.mp hlen
    exact ⟨[], ts, .nil, hts, rfl⟩
  | cons chunk chunks ih =>
    intro oks ts hlen hts
    cases oks with
    | nil => cases hlen
    | cons ok oks =>
      cases hts with
      | @cons _ t _ ts hsend hts =>
      obtain ⟨plains, ts', hplains, hrest, heq⟩ := ih (Nat.succ_injective hlen) hts
      have hsend : Runs (Outbound.method (Client.send repr listGt isWord settings chatId chunk []
        none)) t (.ok (.ok ok)) := hsend
      obtain ⟨plain, styles, hplain, htexts⟩ := texts_send hsend
      refine ⟨plain :: plains, ts', .cons ⟨styles, hplain⟩ hplains, hrest, ?_⟩
      rw [List.flatten_cons, texts_append, htexts, heq]
      rfl

/-- If the sends of the chunks raise, a chunk has not been posted. -/
theorem texts_sends_error {chatId : PyStr} {e : PyError} {chunks : List PyStr} :
    ∀ {us : List Delivery.calls.Event} {ts : List (List Outbound.calls.Event)},
      Runs (sendChunks chatId chunks) us (.error e) →
      Handled (Outbound.perform repr listGt isWord settings workspace) us ts →
      (texts repr listGt ts.flatten).length < chunks.length := by
  induction chunks with
  | nil => exact fun h => by cases h
  | cons chunk chunks ih =>
    intro us ts h hts
    -- Either a later send raises, or this one, and then there is no text for it.
    rcases runs_bind.mp h with ⟨ok, t₁, t₂, rfl, hsend, hrest⟩ | ⟨_, _, hsend⟩
    · obtain ⟨x, rfl, hx⟩ := runs_call_ofExcept.mp hsend
      subst hx
      cases hts with
      | @cons _ t _ ts hrun hts =>
      have hrun : Runs (Outbound.method (Client.send repr listGt isWord settings chatId chunk []
        none)) t (.ok (.ok ok)) := hrun
      obtain ⟨plain, _, _, htexts⟩ := texts_send hrun
      rcases runs_bind.mp hrest with ⟨sent, _, _, _, _, hreturn⟩ | ⟨_, he, hchunks⟩
      · cases (runs_pure.mp hreturn).2
      · cases he
        have hlt := ih hchunks hts
        rw [List.flatten_cons, texts_append, htexts, List.length_append, List.length_cons]
        simpa [Nat.add_comm] using hlt
    · obtain ⟨x, rfl, hx⟩ := runs_call_ofExcept.mp hsend
      subst hx
      cases hts with
      | @cons _ t _ ts hrun hts =>
      cases hts
      have hrun : Runs (Outbound.method (Client.send repr listGt isWord settings chatId chunk []
        none)) t (.ok (.error _)) := hrun
      rw [List.flatten_cons, List.flatten_nil, List.append_nil, texts_send_error hrun]
      exact Nat.succ_pos _

/-- The reactions of a delivery post no text. -/
theorem texts_reactions {us : List Delivery.calls.Event} {ts : List (List Outbound.calls.Event)}
    (hts : Handled (Outbound.perform repr listGt isWord settings workspace) us ts)
    (hus : ∀ ev ∈ us, ∃ emoji timestamp,
      ev.1 = .sendReaction (recipient payload) emoji payload.userId timestamp) :
    texts repr listGt ts.flatten = [] := by
  induction hts with
  | nil => rfl
  | @cons ev t us ts hrun _ ih =>
    obtain ⟨hhead, htail⟩ := List.forall_mem_cons.mp hus
    obtain ⟨emoji, timestamp, hop⟩ := hhead
    obtain ⟨op, answer⟩ := ev
    obtain rfl : op = .sendReaction (recipient payload) emoji payload.userId timestamp := hop
    rw [List.flatten_cons, texts_append, texts_sendReaction hrun, ih htail, List.nil_append]

/-- A callback whose reply is its text. -/
def TextOnly (payload : CallbackPayload) : Prop :=
  payload.type = .progress ∨
    payload.type = .complete ∧ hasVoice payload = false ∧ payload.attachments = []

/-- All sends have succeeded exactly if each has. -/
theorem count_eq_length_iff (oks : List Bool) :
    (oks.length = 0 ∨ oks.count true = oks.length) ↔ ∀ ok ∈ oks, ok = true := by
  rw [List.count_eq_length]
  constructor
  · rintro (h | h)
    · obtain rfl := List.length_eq_zero_iff.mp h
      exact fun ok hok => absurd hok List.not_mem_nil
    · exact fun ok hok => (h ok hok).symm
  · exact fun h => .inr fun ok hok => (h ok hok).symm

/-- A delivery of a text that returns has sent the chunks, and then at most reacted. -/
theorem runs_textOnly (hchunk : 0 < settings.chunkSize) (htext : TextOnly payload)
    {us : List Delivery.calls.Event} {b : Bool}
    (h : Runs (dispatchCallback netlocOk settings true payload) us (.ok b)) :
    ∃ oks reactions, us = sendEvents (recipient payload) (replyChunks settings payload) oks
        ++ reactions ∧
      oks.length = (replyChunks settings payload).length ∧
      (b = true ↔ ∀ ok ∈ oks, ok = true) ∧
      ∀ ev ∈ reactions, ∃ emoji timestamp,
        ev.1 = .sendReaction (recipient payload) emoji payload.userId timestamp := by
  -- What is known of a run of `_send_text_chunks`.
  have hpart : ∀ {t sent expected},
      Runs (sendTextChunks payload.text settings (recipient payload)) t (.ok (sent, expected)) →
      ∃ oks, t = sendEvents (recipient payload) (replyChunks settings payload) oks ∧
        oks.length = expected ∧ sent = oks.count true ∧
        expected = (replyChunks settings payload).length := by
    intro t sent expected hsend
    have htextPart : Runs (textPart settings payload (recipient payload) false) t
        (.ok (sent, expected)) := hsend
    have hsends := runs_textPart hchunk htextPart
    exact hsends
  unfold dispatchCallback at h
  rcases htext with htype | ⟨htype, hvoice, hattachments⟩
  · rw [htype] at h
    obtain ⟨⟨sent, expected⟩, t₁, t₂, rfl, hsend, hreturn⟩ := h.split
    obtain ⟨rfl, hb⟩ := runs_pure.mp hreturn
    obtain ⟨oks, rfl, hlen, rfl, hexpected⟩ := hpart hsend
    refine ⟨oks, [], rfl, hlen.trans hexpected, ?_, fun ev hev => absurd hev List.not_mem_nil⟩
    rw [← count_eq_length_iff, hlen, Except.ok.inj hb]
    simp
  · rw [htype] at h
    have hnone : ¬ (hasVoice payload || !payload.attachments.isEmpty) = true := by
      simp [hvoice, hattachments]
    rw [show (dispatchComplete netlocOk settings true payload) = _ from if_neg hnone] at h
    obtain ⟨⟨sent, expected⟩, t₁, t₂, rfl, hsend, hrest⟩ := h.split
    obtain ⟨u, t₃, t₄, rfl, hreact, hreturn⟩ := hrest.split
    obtain ⟨oks, rfl, hlen, rfl, hexpected⟩ := hpart hsend
    have hreturn : Runs (if expected = 0 then return true
        else return replyOk payload { sent := oks.count true, expected } : Action Bool) t₄
        (.ok b) := hreturn
    have hend : t₄ = [] ∧ (b = true ↔ expected = 0 ∨ oks.count true = expected) := by
      split at hreturn
      · next hzero =>
        obtain ⟨rfl, hb⟩ := runs_pure.mp hreturn
        exact ⟨rfl, by simp [Except.ok.inj hb, hzero]⟩
      · next hpos =>
        obtain ⟨rfl, hb⟩ := runs_pure.mp hreturn
        refine ⟨rfl, ?_⟩
        rw [Except.ok.inj hb, replyOk, hvoice]
        simp [Nat.pos_of_ne_zero hpos, hpos]
    obtain ⟨rfl, hb⟩ := hend
    refine ⟨oks, t₃ ++ [], rfl, hlen.trans hexpected, ?_, fun ev hev => ?_⟩
    · rw [hb, ← count_eq_length_iff, hlen]
    · rw [List.append_nil] at hev
      obtain ⟨timestamp, hop⟩ := (runs_react hreact).2 ev hev
      exact ⟨completeReaction, timestamp, hop⟩

/-- A delivery of a text that raises has raised in the sends of the chunks. -/
theorem runs_textOnly_error (hchunk : 0 < settings.chunkSize) (htext : TextOnly payload)
    {us : List Delivery.calls.Event} {e : PyError}
    (h : Runs (dispatchCallback netlocOk settings true payload) us (.error e)) :
    Runs (sendChunks (recipient payload) (replyChunks settings payload)) us (.error e) := by
  have hpart : ∀ {t}, Runs (sendTextChunks payload.text settings (recipient payload)) t
      (.error e) →
      Runs (sendChunks (recipient payload) (replyChunks settings payload)) t (.error e) := by
    intro t hsend
    rw [sendTextChunks, Chunking.chunkMessage, if_neg (not_le.mpr hchunk)] at hsend
    have hsend : Runs (sendChunks (recipient payload) (replyChunks settings payload) >>=
        fun sent => return (sent, (replyChunks settings payload).length)) t (.error e) := hsend
    rcases runs_bind.mp hsend with ⟨_, _, _, _, _, hreturn⟩ | ⟨_, he, hchunks⟩
    · cases (runs_pure.mp hreturn).2
    · cases he
      exact hchunks
  unfold dispatchCallback at h
  rcases htext with htype | ⟨htype, hvoice, hattachments⟩
  · rw [htype] at h
    rcases runs_bind.mp h with ⟨_, _, _, _, _, hreturn⟩ | ⟨_, he, hsend⟩
    · cases (runs_pure.mp hreturn).2
    · cases he
      exact hpart hsend
  · rw [htype] at h
    have hnone : ¬ (hasVoice payload || !payload.attachments.isEmpty) = true := by
      simp [hvoice, hattachments]
    rw [show (dispatchComplete netlocOk settings true payload) = _ from if_neg hnone] at h
    rcases runs_bind.mp h with ⟨⟨sent, expected⟩, _, _, _, _, hrest⟩ | ⟨_, he, hsend⟩
    · -- behind the sends nothing raises
      rcases runs_bind.mp hrest with ⟨_, _, _, _, _, hreturn⟩ | ⟨_, _, hreact⟩
      · have hreturn : Runs (if expected = 0 then return true
            else return replyOk payload { sent, expected } : Action Bool) _ (.error e) := hreturn
        split at hreturn
        · cases (runs_pure.mp hreturn).2
        · cases (runs_pure.mp hreturn).2
      · cases (runs_react hreact).1
    · cases he
      exact hpart hsend

/-- Texts that were all sent. -/
theorem zip_replicate_true (plains : List PyStr) :
    (plains.map Json.str).zip (List.replicate plains.length true)
      = plains.map fun plain => (.str plain, true) := by
  induction plains with
  | nil => rfl
  | cons plain plains ih =>
    rw [List.length_cons, List.replicate_succ, List.map_cons, List.zip_cons_cons, ih, List.map_cons]

/-- A delivery of a text succeeds exactly if it has posted the converted chunks of the text, each
once and in order, and the daemon has taken them all. -/
theorem text_on_the_wire (hchunk : 0 < settings.chunkSize) (htext : TextOnly payload)
    {t : List Outbound.calls.Event} {r : Except PyError Bool}
    (h : Runs (Outbound.deliver repr listGt isWord netlocOk settings workspace payload) t r) :
    r = .ok true ↔ ∃ plains, List.Forall₂ (Converted isWord) (replyChunks settings payload) plains ∧
      texts repr listGt t = plains.map fun plain => (.str plain, true) := by
  obtain ⟨us, ts, hus, hts, rfl⟩ := runs_handle.mp h
  cases r with
  | ok b =>
    obtain ⟨oks, reactions, rfl, hlen, hb, hreactions⟩ := runs_textOnly hchunk htext hus
    obtain ⟨plains, ts', hplains, hrest, heq⟩ := texts_sends hlen hts
    rw [texts_reactions hrest hreactions, List.append_nil] at heq
    have hsame : oks.length = (plains.map Json.str).length := by
      rw [hlen, List.length_map, hplains.length_eq]
    -- the flags of the posted messages are those that the verdict counts
    have hflags : (texts repr listGt ts.flatten).map Prod.snd = oks := by
      rw [heq, List.map_snd_zip hsame.le]
    rw [Except.ok.injEq, hb]
    constructor
    · intro hall
      refine ⟨plains, hplains, ?_⟩
      rw [heq, List.eq_replicate_of_mem hall, hsame, List.length_map]
      exact zip_replicate_true plains
    · rintro ⟨plains', -, htexts⟩ ok hok
      rw [← hflags, htexts, List.map_map] at hok
      obtain ⟨plain, -, rfl⟩ := List.mem_map.mp hok
      rfl
  | error e =>
    have hlt := texts_sends_error (runs_textOnly_error hchunk htext hus) hts
    refine iff_of_false (fun h => by cases h) ?_
    rintro ⟨plains, hplains, heq⟩
    rw [heq, List.length_map, hplains.length_eq] at hlt
    exact lt_irrefl _ hlt

end SignalGateway.Proofs.Outbound
