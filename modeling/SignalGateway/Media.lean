import SignalGateway.Envelope
import SignalGateway.Py.Base64

/-!
# `SignalGateway.Media`: inbound audio

The model of the inbound half of `media.py`, up to the bytes that the signal client fetches.
A field of an attachment that is not a string where the source expects one raises, as in
`Envelope`.

`isAudio` looks at the extension even if there is a content type that is no audio, as the source
does. `audioFormat` falls back from the content type to the extension and to a default.

In the two tables `None` marks a format that the worker cannot read. Such audio is not fetched, and
this is not the same as a missing entry. So the lookups return an `Option` of an `Option`.
-/

set_option autoImplicit false

namespace SignalGateway.Media

open Envelope PyChar

/-- `MAX_INBOUND_AUDIO_BYTES` -/
def maxInboundAudioBytes : Nat := 25 * 1024 * 1024

/-- `_AUDIO_MIME_TO_FORMAT` -/
def audioMimeToFormat : List (PyStr × Option PyStr) :=
  [(lit "audio/aac", some (lit "aac")), (lit "audio/mp4", some (lit "m4a")),
    (lit "audio/x-m4a", some (lit "m4a")), (lit "audio/mpeg", some (lit "mp3")),
    (lit "audio/mp3", some (lit "mp3")), (lit "audio/ogg", some (lit "ogg")),
    (lit "audio/opus", some (lit "ogg")), (lit "audio/wav", some (lit "wav")),
    (lit "audio/x-wav", some (lit "wav")), (lit "audio/webm", some (lit "webm")),
    (lit "audio/3gpp", none)]

/-- `_AUDIO_EXT_TO_FORMAT` -/
def audioExtToFormat : List (PyStr × Option PyStr) :=
  [(lit ".aac", some (lit "aac")), (lit ".m4a", some (lit "m4a")),
    (lit ".mp4", some (lit "m4a")), (lit ".mp3", some (lit "mp3")),
    (lit ".ogg", some (lit "ogg")), (lit ".oga", some (lit "ogg")),
    (lit ".opus", some (lit "ogg")), (lit ".wav", some (lit "wav")),
    (lit ".webm", some (lit "webm")), (lit ".3gp", none)]

/-- `_DEFAULT_AUDIO_FORMAT` -/
def defaultAudioFormat : PyStr := lit "aac"

/-- `InboundAudio` -/
structure InboundAudio where
  audioBase64 : PyStr
  audioFormat : PyStr
deriving DecidableEq, Repr

/-- `Path(s).name`: the last component that is neither empty nor a dot. -/
def pathName (s : PyStr) : PyStr :=
  (((s.splitOnP (isChr '/')).filter fun part => part ≠ [] ∧ part ≠ lit ".").getLast?).getD []

/-- `Path(s).suffix`: the end of the name from its last dot, unless the dot is the first or
the last character. -/
def pathSuffix (s : PyStr) : PyStr :=
  let name := pathName s
  let suffix := ofChar '.' :: name.rtakeWhile fun c => !isChr '.' c
  if name.any (isChr '.') ∧ suffix.length < name.length ∧ 1 < suffix.length then suffix else []

/-- `x.lower()` -/
def lowerOf : Json → Except PyError PyStr
  | .str s => .ok (lower s)
  | _ => .error .attributeError

/-- `Path(x).suffix.lower()` -/
def suffixOf : Json → Except PyError PyStr
  | .str s => .ok (lower (pathSuffix s))
  | _ => .error .typeError

/-- `ref.content_type and ref.content_type.lower().startswith("audio/")` -/
def hasAudioType (ref : AttachmentRef) : Except PyError Bool :=
  if ref.contentType.truthy then (lit "audio/").isPrefixOf <$> lowerOf ref.contentType
  else .ok false

/-- The entry of `_AUDIO_EXT_TO_FORMAT` for the filename. -/
def suffixFormat (ref : AttachmentRef) : Except PyError (Option (Option PyStr)) :=
  if ref.filename.truthy then
    (fun suffix => audioExtToFormat.lookup suffix) <$> suffixOf ref.filename
  else .ok none

/-- `is_audio` -/
def isAudio (ref : AttachmentRef) : Except PyError Bool := do
  if ← hasAudioType ref then return true
  -- The extension counts behind a content type that is no audio, too.
  return (← suffixFormat ref).isSome

/-- `select_inbound_audio` -/
def selectInboundAudio : List AttachmentRef → Except PyError (Option AttachmentRef)
  | [] => .ok none
  | ref :: refs => do if ← isAudio ref then return some ref else selectInboundAudio refs

/-- The content type without its parameters. -/
def mimeOf (contentType : PyStr) : PyStr := strip (contentType.takeWhile fun c => !isChr ';' c)

/-- The entry of `_AUDIO_MIME_TO_FORMAT` for the content type. -/
def typeFormat (ref : AttachmentRef) : Except PyError (Option (Option PyStr)) :=
  if ref.contentType.truthy then
    (fun s => audioMimeToFormat.lookup (mimeOf s)) <$> lowerOf ref.contentType
  else .ok none

/-- `_audio_format` -/
def audioFormat (ref : AttachmentRef) : Except PyError (Option PyStr) := do
  match ← typeFormat ref with
  | some format => return format
  | none =>
      match ← suffixFormat ref with
      | some format => return format
      -- Audio that neither table knows.
      | none => return some defaultAudioFormat

/-- `ref.size is not None and ref.size > max_bytes` -/
def declaredTooLarge (ref : AttachmentRef) (maxBytes : Nat) : Except PyError Bool :=
  match ref.size with
  | .null => .ok false
  | .float x => .ok (PyFloat.intLt maxBytes x)
  | size =>
      match size.intOrNone with
      | some n => .ok (decide ((maxBytes : ℤ) < n))
      | none => .error .typeError

/-- The part of an RPC result that holds the bytes: its field `data`, or in older versions
the result itself. -/
def payloadOf : Json → Json
  | .obj items => Json.lookup items "data"
  | result => result

/-- `base64.b64decode(x)` -/
def decodePayload : Json → Except PyError Bytes
  | .str s => b64decode false s
  | _ => .error .typeError

/-- The tail of `get_attachment`, behind the RPC. -/
def attachmentBytes (result : Json) : Except PyError (Option Bytes) :=
  if !result.truthy then .ok none
  else if !(payloadOf result).truthy then .ok none
  else some <$> decodePayload (payloadOf result)

/-- The tail of `fetch_inbound_audio`, behind the fetch. -/
def encodeAudio (format : PyStr) (data : Option Bytes) (maxBytes : Nat) : Option InboundAudio :=
  match data with
  | none => none
  | some data =>
      if data.isEmpty then none
      else if maxBytes < data.length then none
      else some ⟨b64encode data, format⟩

end SignalGateway.Media
