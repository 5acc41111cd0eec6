import SignalGateway.Py.Json

/-!
# `SignalGateway.Dispatch`: the callback payload

The model of the parsing half of `dispatch.py`, with `parse_outbound_attachments` of
`media.py`, which it calls.

`strOrNone` and `intOrNone` are the `isinstance` checks of the source: a field of another type
counts as absent. Only the type of a callback is looked up without such a check. A list or an
object has no hash there, so `lookupType` can raise, which is why the parser returns an `Except`.
-/

set_option autoImplicit false

namespace SignalGateway.Dispatch

/-- `OutboundAttachment` -/
structure OutboundAttachment where
  url : PyStr
  filename : Option PyStr
  mimeType : Option PyStr
  sizeBytes : Option ℤ
deriving DecidableEq, Repr

/-- One item of the `attachments` array. -/
def parseOutboundAttachment : Json → Option OutboundAttachment
  | .obj items =>
      (Json.lookup items "url").strOrNone.map fun url =>
        { url
          filename := (Json.lookup items "filename").strOrNone
          mimeType := (Json.lookup items "mime_type").strOrNone
          sizeBytes := (Json.lookup items "size_bytes").intOrNone }
  | _ => none

/-- `parse_outbound_attachments` -/
def parseOutboundAttachments : Json → List OutboundAttachment
  | .arr items => items.filterMap parseOutboundAttachment
  | _ => []

/-- The four values of `_VALID_TYPES`. -/
inductive CallbackType where
  | status
  | progress
  | complete
  | error
deriving DecidableEq, Repr

/-- The wire name of a type. -/
def CallbackType.name : CallbackType → String
  | .status => "status"
  | .progress => "progress"
  | .complete => "complete"
  | .error => "error"

/-- `_VALID_TYPES` -/
def validTypes : List CallbackType := [.status, .progress, .complete, .error]

/-- `CallbackPayload` -/
structure CallbackPayload where
  type : CallbackType
  userId : PyStr
  messageKey : PyStr
  text : Option PyStr := none
  error : Option PyStr := none
  chatId : Option PyStr := none
  voiceAudioUrl : Option PyStr := none
  voiceAudioBase64 : Option PyStr := none
  attachments : List OutboundAttachment := []
deriving DecidableEq, Repr

/-- `type_ in _VALID_TYPES`, with the type found. A value without a hash raises. -/
def lookupType (type : Json) : Except PyError (Option CallbackType) :=
  if !type.hashable then .error .typeError
  else
    match type with
    | .str s => .ok (validTypes.find? fun t => lit t.name == s)
    | _ => .ok none

/-- `parse_callback_payload` -/
def parseCallbackPayload : Json → Except PyError (Option CallbackPayload)
  | .obj items => do
      let some type ← lookupType (Json.lookup items "type") | return none
      -- Without its two ids a callback is unrecognized.
      let some userId := (Json.lookup items "user_id").strOrNone | return none
      let some messageKey := (Json.lookup items "message_key").strOrNone | return none
      return some
        { type, userId, messageKey
          text := (Json.lookup items "text").strOrNone
          error := (Json.lookup items "error").strOrNone
          chatId := (Json.lookup items "chat_id").strOrNone
          voiceAudioUrl := (Json.lookup items "voice_audio_url").strOrNone
          voiceAudioBase64 := (Json.lookup items "voice_audio_base64").strOrNone
          attachments := parseOutboundAttachments (Json.lookup items "attachments") }
  | _ => .ok none

/-- `_recipient`: `payload.chat_id or payload.user_id`. -/
def recipient (payload : CallbackPayload) : PyStr :=
  match payload.chatId with
  | some chatId => if chatId.isEmpty then payload.userId else chatId
  | none => payload.userId

end SignalGateway.Dispatch
