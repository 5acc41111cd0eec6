import SignalGateway.Relay
import SignalGateway.SignalClient
import SignalGateway.Proofs.Delivery
import SignalGateway.Proofs.Envelope

/-!
# `SignalGateway.Proofs.Routing`: replies go back to where the message came from

`reply_routing` is the round trip of an address: from the envelope to the request, through
a worker that echoes it, and back to the calls of the delivery. `Addressed` says that a call
goes to the chat of a message, and that a reaction names its author and timestamp.

* `buildChatRequest_fields` and `exists_request`: the address in the request of a message.
* `Echoes` is the assumption on the worker: it copies the fields of the address.
* `parse_body`: the payload that the callback is read as.
* `dispatchCallback_addressed`: the calls of its delivery.
* `lookup_applyDestination`, `runs_react`, `runs_relay_reaction`: the parameters of the RPCs, for
  the reply and for the reactions on both sides.
-/

set_option autoImplicit false

namespace SignalGateway.Proofs.Routing

open SignalGateway.Envelope SignalGateway.EngineClient SignalGateway.Dispatch
open SignalGateway.Proofs.Envelope PyChar

/-! ### The request -/

/-- Different literals are different strings. -/
theorem lit_injective : Function.Injective (lit : String → PyStr) := by
  have hchar : Function.Injective (ofChar : Char → CodePoint) := by
    intro c d h
    have hval : c.val.toNat = d.val.toNat := Fin.mk.inj_iff.mp h
    exact Char.ext (UInt32.toNat_inj.mp hval)
  intro s t h
  exact String.toList_inj.mp (hchar.list_map h)

/-- A key is found in a `dict` by its text. -/
theorem lookup_dict (items : List (String × Json)) (key : String) :
    (dict items).lookup (lit key) = items.lookup key := by
  rw [dict]
  induction items with
  | nil => rfl
  | cons item items ih =>
    have hkey : (lit key == (lit item.1 : PyStr)) = (key == item.1) := by
      rw [Bool.eq_iff_iff, beq_iff_eq, beq_iff_eq]
      exact lit_injective.eq_iff
    rw [List.map_cons, List.lookup_cons, hkey, ih, List.lookup_cons]

/-- The fields of a request that a callback echoes. -/
theorem buildChatRequest_fields {message : InboundMessage} {settings : Settings}
    {audio : Option Media.InboundAudio} {request : List (PyStr × Json)}
    (h : buildChatRequest message settings audio = .ok request) :
    ∃ key, strInt message.timestampMs = .ok key ∧
      Json.lookup request "user_id" = message.userId ∧
      Json.lookup request "message_key" = .str key ∧
      Json.lookup request "chat_id" = if message.isGroup then message.chatId else .null := by
  obtain ⟨key, hkey, h⟩ := bind_ok_iff.mp h
  refine ⟨key, hkey, ?_⟩
  cases h
  cases audio <;> cases message.isGroup <;> cases message.senderName.truthy <;>
    simp [Json.lookup, List.lookup_append, lookup_dict, List.lookup_cons]

/-- A number is written with a digit. -/
theorem strInt_ne_nil {i : ℤ} {s : PyStr} (h : strInt i = .ok s) : s ≠ [] := by
  simp only [strInt] at h
  split at h
  · cases h
  · cases h
    intro hnil
    have hdigits := (List.append_eq_nil_iff.mp hnil).2
    exact digitsOf_ne_nil _ (List.map_eq_nil_iff.mp hdigits)

/-- A request can be built for every message that was accepted. -/
theorem exists_request {repr : Json → Except PyError PyStr} {raw : Json} {settings : Settings}
    {clock : PyFloat} {message : InboundMessage} (p : Parse repr raw settings clock message)
    (audio : Option Media.InboundAudio) :
    ∃ request, buildChatRequest message settings audio = .ok request := by
  obtain ⟨key, hkey⟩ := exists_strInt p.timestampMs_lt
  exact ⟨_, bind_ok_iff.mpr ⟨key, hkey, rfl⟩⟩

/-! ### The callback -/

/-- A callback body of some type that echoes the address of a request. -/
structure Echoes (type : CallbackType) (request body : List (PyStr × Json)) : Prop where
  type_eq : Json.lookup body "type" = .str (lit type.name)
  userId_eq : Json.lookup body "user_id" = Json.lookup request "user_id"
  messageKey_eq : Json.lookup body "message_key" = Json.lookup request "message_key"
  chatId_eq : Json.lookup body "chat_id" = Json.lookup request "chat_id"

/-- A type is found by its name. -/
theorem lookupType_name (type : CallbackType) :
    lookupType (.str (lit type.name)) = .ok (some type) := by
  cases type <;> decide

/-- A string that is not empty is taken. -/
theorem strOrNone_str {s : PyStr} (h : s ≠ []) : (Json.str s).strOrNone = some s := by
  cases s with
  | nil => exact absurd rfl h
  | cons c s => rfl

/-- A body with a type, an author and a key is accepted. -/
theorem parse_body {body : List (PyStr × Json)} {type : CallbackType} {userId key : PyStr}
    (htype : Json.lookup body "type" = .str (lit type.name))
    (huser : Json.lookup body "user_id" = .str userId) (huserne : userId ≠ [])
    (hkey : Json.lookup body "message_key" = .str key) (hkeyne : key ≠ []) :
    ∃ payload, parseCallbackPayload (.obj body) = .ok (some payload) ∧
      payload.type = type ∧ payload.userId = userId ∧ payload.messageKey = key ∧
      payload.chatId = (Json.lookup body "chat_id").strOrNone := by
  simp only [parseCallbackPayload, htype, lookupType_name, huser, strOrNone_str huserne, hkey,
    strOrNone_str hkeyne]
  exact ⟨_, rfl, rfl, rfl, rfl, rfl⟩

/-! ### The calls of a delivery -/

/-- A call goes to the chat of the message. A reaction also names its author and
timestamp. -/
def Addressed (message : InboundMessage) : Delivery.Op → Prop
  | .send chatId _ | .sendVoiceNote chatId _ | .sendAttachments chatId _ =>
      message.chatId = .str chatId
  | .sendReaction chatId _ author timestamp =>
      message.chatId = .str chatId ∧ message.userId = .str author ∧
        message.timestampMs = timestamp
  | .openWorkspace | .closeWorkspace | .closeClient | .mkdir _ | .stream _ _
  | .writeBytes _ _ => True

section
open SignalGateway.Delivery SignalGateway.Proofs.Delivery Prog

variable {netlocOk : PyStr → Bool} {settings : Settings} {message : InboundMessage}
  {payload : CallbackPayload} (hchat : message.chatId = .str (recipient payload))
include hchat

/-- The voice note is addressed to the chat of the message. -/
theorem addressed_of_voiceOp {op : Op} (h : VoiceOp (recipient payload) op) :
    Addressed message op := by
  rcases h with h | ⟨path, rfl⟩
  · cases op <;> first | exact trivial | exact h.elim
  · exact hchat

/-- So is the text. -/
theorem addressed_of_textOp {op : Op} (h : TextOp (recipient payload) op) :
    Addressed message op := by
  cases op with
  | send chatId text =>
    obtain rfl : chatId = recipient payload := h
    exact hchat
  | _ => exact False.elim h

/-- So are the attachments. -/
theorem addressed_of_attachmentOp {op : Op} (h : AttachmentOp (recipient payload) op) :
    Addressed message op := by
  rcases h with h | ⟨paths, rfl⟩
  · cases op <;> first | exact trivial | exact h.elim
  · exact hchat

/-- So are the chunks of a text. -/
theorem sendTextChunks_addressed (text : Option PyStr) :
    (sendTextChunks text settings (recipient payload)).Only (Addressed message) :=
  (sendTextChunks_only text).mono fun _ => addressed_of_textOp hchat

/-- So are all media. -/
theorem deliverMedia_addressed :
    (deliverMedia netlocOk settings payload (recipient payload)).Only
      (Addressed message) :=
  only_bind (voicePart_only.mono fun _ => addressed_of_voiceOp hchat) fun _ =>
    only_bind (textPart_only.mono fun _ => addressed_of_textOp hchat) fun _ =>
      only_bind (attachmentPart_only.mono fun _ => addressed_of_attachmentOp hchat)
        fun _ => trivial

variable (huser : message.userId = .str payload.userId)
  (htime : intStr payload.messageKey = .ok message.timestampMs)
include huser htime

/-- The reaction is to the message. -/
theorem react_addressed (emoji : PyStr) : (react payload emoji).Only (Addressed message) := by
  rw [react, htime]
  exact only_tryCatch (only_bind ⟨⟨hchat, huser, rfl⟩, fun _ => only_ofExcept _⟩
    fun _ => trivial) fun _ => trivial

/-- So is all of a complete reply. -/
theorem dispatchComplete_addressed (ownsClient : Bool) :
    (dispatchComplete netlocOk settings ownsClient payload).Only (Addressed message) := by
  have hreact := react_addressed hchat huser htime completeReaction
  unfold dispatchComplete
  split
  · refine only_bind (only_tryFinally ?_ ?_) fun reply => only_bind hreact fun _ => trivial
    · exact only_bind ⟨trivial, fun _ => only_ofExcept _⟩ fun _ =>
        only_tryFinally (deliverMedia_addressed hchat) ⟨trivial, fun _ => trivial⟩
    · unfold closeClient
      split
      · exact ⟨trivial, fun _ => only_ofExcept _⟩
      · exact trivial
  · refine only_bind (sendTextChunks_addressed hchat _) fun counts =>
      only_bind hreact fun _ => ?_
    split <;> exact trivial

/-- Every call of a delivery goes to the message that the payload answers. -/
theorem dispatchCallback_addressed (ownsClient : Bool) :
    (dispatchCallback netlocOk settings ownsClient payload).Only (Addressed message) := by
  unfold dispatchCallback
  split
  · exact only_bind ⟨hchat, fun _ => only_ofExcept _⟩ fun _ =>
      only_bind (react_addressed hchat huser htime _) fun _ => trivial
  · exact only_bind (sendTextChunks_addressed hchat _) fun _ => trivial
  · exact trivial
  · exact dispatchComplete_addressed hchat huser htime ownsClient

end

/-! ### The round trip -/

/-- The group id in a raw envelope. -/
def rawGroupId (raw : Json) : Except PyError Json := do
  let envelope ← raw.getOr? "envelope" raw
  let dataMessage ← dataMessageOf envelope
  ((← dataMessage.get? "groupInfo").or (.obj [])).get? "groupId"

section
variable {repr : Json → Except PyError PyStr} {raw : Json} {settings : Settings}
  {clock : PyFloat} {message : InboundMessage}

/-- The group id of an accepted envelope. -/
theorem rawGroupId_eq (p : Parse repr raw settings clock message) :
    rawGroupId raw = .ok message.groupId := by
  have hinfo : (do
      let info ← p.dataMessage.get? "groupInfo"
      (info.or (.obj [])).get? "groupId") = .ok message.groupId :=
    bind_ok_iff.mpr ⟨p.groupInfo, p.groupInfo_eq, p.groupId_eq⟩
  exact bind_ok_iff.mpr ⟨p.envelope, p.envelope_eq,
    bind_ok_iff.mpr ⟨p.dataMessage, p.dataMessage_eq, hinfo⟩⟩

/-- The chat of a message is its group, or else its sender. -/
theorem chatId_cases (p : Parse repr raw settings clock message) {userId : PyStr}
    (huser : message.userId = .str userId)
    (hgroup : message.isGroup = true → ∃ id, message.groupId = .str id) :
    (message.isGroup = true ∧
        ∃ id, message.groupId = .str id ∧ message.chatId = .str (groupPrefix ++ id)) ∨
      (message.isGroup = false ∧ message.chatId = .str userId) := by
  have hchat := p.chatId_eq
  rw [chatIdOf, ← p.isGroup_eq] at hchat
  cases hg : message.isGroup with
  | true =>
    obtain ⟨id, hid⟩ := hgroup hg
    rw [hg, if_pos rfl, hid] at hchat
    exact .inl ⟨rfl, id, hid, (Except.ok.inj hchat).symm⟩
  | false =>
    rw [hg, if_neg Bool.false_ne_true] at hchat
    exact .inr ⟨rfl, (Except.ok.inj hchat).symm.trans huser⟩

/-- The chat id of a message is found again on the way back, and only that of a group names a
group. -/
theorem exists_chatId (p : Parse repr raw settings clock message) {userId : PyStr}
    (huser : message.userId = .str userId)
    (hgroup : message.isGroup = true → ∃ id, message.groupId = .str id)
    (hdirect : message.isGroup = false → ¬ groupPrefix <+: userId) :
    ∃ chatId, message.chatId = .str chatId ∧
      (∀ payload : CallbackPayload, payload.userId = userId → payload.chatId
          = (if message.isGroup then message.chatId else Json.null).strOrNone →
        recipient payload = chatId) ∧
      (if groupPrefix <+: chatId then .str (chatId.drop groupPrefix.length) else .null)
        = if message.isGroup then message.groupId else .null := by
  rcases chatId_cases p huser hgroup with ⟨hg, id, hid, hchat⟩ | ⟨hg, hchat⟩
  · refine ⟨_, hchat, ?_, ?_⟩
    · intro payload _ hpchat
      rw [hg, if_pos rfl, hchat, strOrNone_str (by simp [groupPrefix, lit])] at hpchat
      rw [recipient, hpchat]
      rfl
    · rw [if_pos (List.prefix_append _ _), hg, hid, List.drop_left]
      rfl
  · -- A direct message has no chat id of its own: the reply goes to the user.
    refine ⟨_, hchat, ?_, ?_⟩
    · intro payload hpuser hpchat
      rw [hg, if_neg Bool.false_ne_true] at hpchat
      rw [recipient, hpchat, ← hpuser]
      rfl
    · rw [if_neg (hdirect hg), hg]
      rfl

/-- `params["groupId"]` is set for a chat of a group only. -/
theorem lookup_applyDestination (resolveRecipient : PyStr → Id Json)
    {params : List (PyStr × Json)} (hnew : params.lookup (lit "groupId") = none)
    (chatId : PyStr) :
    Json.lookup (SignalClient.applyDestination resolveRecipient params chatId).run "groupId"
      = if groupPrefix <+: chatId then .str (chatId.drop groupPrefix.length) else .null := by
  have hkeys : (lit "groupId" == (lit "recipient" : PyStr)) = false := by decide
  by_cases h : groupPrefix <+: chatId
  · have hpre : groupPrefix.isPrefixOf chatId = true := List.isPrefixOf_iff_prefix.mpr h
    simp [SignalClient.applyDestination, SignalClient.addParam, Json.lookup, hpre, h,
      List.lookup_append, hnew]
  · have hpre : groupPrefix.isPrefixOf chatId = false := by
      rw [← Bool.not_eq_true, List.isPrefixOf_iff_prefix]
      exact h
    simp [SignalClient.applyDestination, SignalClient.addParam, Json.lookup, hpre, h,
      List.lookup_append, hnew, List.lookup_cons, hkeys]

end

/-- A reaction to a message key that is a number is one call, and does not raise. -/
theorem runs_react {payload : CallbackPayload} {timestamp : ℤ} {emoji : PyStr}
    (htime : intStr payload.messageKey = .ok timestamp)
    {t : List Delivery.calls.Event} {r : Except PyError Unit}
    (h : Prog.Runs (Delivery.react payload emoji) t r) :
    r = .ok () ∧ ∃ x,
      t = [⟨.sendReaction (recipient payload) emoji payload.userId timestamp, x⟩] := by
  rw [Delivery.react, htime] at h
  obtain ⟨x, t', rfl, hrest⟩ := Prog.runs_call.mp h
  cases x with
  | ok b =>
    cases hrest
    exact ⟨rfl, _, rfl⟩
  | error e =>
    cases hrest
    exact ⟨rfl, _, rfl⟩

/-- The first thing the inbound handler does is to react to the message. -/
theorem runs_relay_reaction {message : InboundMessage} {t : List Relay.calls.Event}
    {r : Except PyError Unit} (h : Prog.Runs (Relay.relay message) t r) :
    ∃ x rest, t = ⟨.sendReaction message.chatId (lit "👀") message.userId
      message.timestampMs, x⟩ :: rest := by
  obtain ⟨x, t', rfl, -⟩ := Prog.runs_call.mp h
  exact ⟨x, t', rfl⟩

/-- The round trip of an address. A message was accepted, its identifiers are strings, and
the sender of a direct message does not look like a group. Then a worker that echoes the
address of the request gets its callback accepted, with the chat, author and timestamp of
the message. The first reaction, the last reaction and the reply go there, and to the group
of the envelope or to no group. -/
theorem reply_routing {repr : Json → Except PyError PyStr} {raw : Json} {settings : Settings}
    {clock : PyFloat} {message : InboundMessage}
    (h : parseEnvelope repr raw settings clock = .ok (some message)) {userId : PyStr}
    (huser : message.userId = .str userId)
    (hgroup : message.isGroup = true → ∃ id, message.groupId = .str id)
    (hdirect : message.isGroup = false → ¬ groupPrefix <+: userId)
    (audio : Option Media.InboundAudio) :
    ∃ request chatId, buildChatRequest message settings audio = .ok request ∧
      message.chatId = .str chatId ∧
      (∀ t r, Prog.Runs (Relay.relay message) t r → ∃ x rest,
        t = ⟨.sendReaction message.chatId (lit "👀") message.userId message.timestampMs, x⟩
          :: rest) ∧
      rawGroupId raw = .ok message.groupId ∧
      (∀ (resolveRecipient : PyStr → Id Json) params, params.lookup (lit "groupId") = none →
        Json.lookup (SignalClient.applyDestination resolveRecipient params chatId).run "groupId"
          = if message.isGroup then message.groupId else .null) ∧
      ∀ type ∈ [CallbackType.complete, .progress, .error], ∀ body, Echoes type request body →
        ∃ payload, parseCallbackPayload (.obj body) = .ok (some payload) ∧
          payload.type = type ∧ recipient payload = chatId ∧ payload.userId = userId ∧
          intStr payload.messageKey = .ok message.timestampMs ∧
          (∀ emoji t r, Prog.Runs (Delivery.react payload emoji) t r → ∃ x,
            t = [⟨.sendReaction chatId emoji userId message.timestampMs, x⟩]) ∧
          ∀ netlocOk ownsClient t r,
            Prog.Runs (Delivery.dispatchCallback netlocOk settings ownsClient payload) t r →
              ∀ ev ∈ t, Addressed message ev.1 := by
  obtain ⟨p⟩ := parse_of_ok h
  obtain ⟨request, hrequest⟩ := exists_request p audio
  obtain ⟨key, hkey, hreqUser, hreqKey, hreqChat⟩ := buildChatRequest_fields hrequest
  -- an envelope without a sender is dropped
  have huserne : userId ≠ [] := by
    intro hnil
    have htruthy := p.userId_truthy
    rw [huser, hnil] at htruthy
    cases htruthy
  obtain ⟨chatId, hchat, hback, hdest⟩ := exists_chatId p huser hgroup hdirect
  refine ⟨request, chatId, hrequest, hchat, fun t r => runs_relay_reaction, rawGroupId_eq p,
    ?_, ?_⟩
  · intro resolveRecipient params hnew
    rw [lookup_applyDestination resolveRecipient hnew, hdest]
  · intro type _ body hecho
    obtain ⟨payload, hpayload, htype, hpuser, hpkey, hpchat⟩ := parse_body hecho.type_eq
      (by rw [hecho.userId_eq, hreqUser, huser]) huserne
      (by rw [hecho.messageKey_eq, hreqKey]) (strInt_ne_nil hkey)
    rw [hecho.chatId_eq, hreqChat] at hpchat
    have hrecipient := hback payload hpuser hpchat
    -- the key of the callback is the timestamp, written out and read back
    have htime : intStr payload.messageKey = .ok message.timestampMs := by
      rw [hpkey]
      exact intStr_of_strInt hkey
    refine ⟨payload, hpayload, htype, hrecipient, hpuser, htime, ?_, ?_⟩
    · intro emoji t r hr
      obtain ⟨-, x, hx⟩ := runs_react htime hr
      subst hrecipient hpuser
      exact ⟨x, hx⟩
    · intro netlocOk ownsClient t r hr
      refine Prog.Only.runs (dispatchCallback_addressed ?_ ?_ htime ownsClient) hr
      · rw [hrecipient, hchat]
      · rw [hpuser, huser]

/-- A message in a group. -/
def groupEnvelope : Json :=
  .obj (dict
    [("envelope", .obj (dict
      [("sourceUuid", .str (lit "8c1f")), ("timestamp", .int 1700000000000),
        ("dataMessage", .obj (dict
          [("message", .str (lit "hello")),
            ("groupInfo", .obj (dict [("groupId", .str (lit "Z3Jw"))]))]))]))])

/-- A gateway in that group. -/
def groupSettings : Settings where
  signalAccount := lit "+15550001111"
  engineApiKey := lit "key"
  gatewayPublicUrl := lit "https://gateway.example"
  signalGroupAllowedUsers := [lit "Z3Jw"]
  signalRequireMention := false

/-- The message in the group is accepted. -/
theorem groupEnvelope_accepted :
    (parseEnvelope (fun _ => .ok []) groupEnvelope groupSettings
      (.ofRat 1700000000)).toOption.join.isSome = true := by
  decide +kernel

/-- The message in the group. -/
def groupMessage : InboundMessage := Option.get _ groupEnvelope_accepted

/-- The round trip of the message in the group. -/
theorem reply_routing_group :
    ∃ request chatId, buildChatRequest groupMessage groupSettings none = .ok request ∧
      groupMessage.chatId = .str chatId := by
  have huser : groupMessage.userId = .str (lit "8c1f") := eq_of_eqStr (by decide +kernel)
  have hgroup : groupMessage.groupId = .str (lit "Z3Jw") := eq_of_eqStr (by decide +kernel)
  have hisGroup : groupMessage.isGroup = true := by decide +kernel
  obtain ⟨request, chatId, hrequest, hchat, -⟩ := reply_routing
    (eq_accepted groupEnvelope_accepted) huser (fun _ => ⟨_, hgroup⟩)
    (fun hdirect => absurd (hisGroup.symm.trans hdirect) (by decide)) none
  exact ⟨request, chatId, hrequest, hchat⟩

end SignalGateway.Proofs.Routing
