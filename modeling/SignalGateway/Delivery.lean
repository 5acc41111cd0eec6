import SignalGateway.Download

/-!
# `SignalGateway.Delivery`: delivering a callback

The model of the delivering half of `dispatch.py`. `dispatchCallback` sends a reply with its
media and reacts to the message it answers.

The order of a `complete` reply is the order of the source: the voice note, the text, the
attachments, the end of the workspace and of the download client, the reaction. A delivered voice
note suppresses the text.

* `voicePart`, `textPart`, `attachmentPart` are the three parts, `deliverMedia` is their sequence,
  and `withWorkspace` is the temporary directory around them.
* `Reply` collects what the parts report, and `replyOk` is the verdict on it.
* `downloadAttachments` recurses over the attachments with their index, which names the directory.

The methods of the signal client return a flag or raise. A program like `voicePart` passes an error
on, as the source does, and only the `finally` of the workspace and of the client run behind it.
-/

set_option autoImplicit false

namespace SignalGateway.Delivery

open Chunking Dispatch

/-- `_VOICE_FALLBACK_SUFFIX` -/
def voiceFallbackSuffix : PyStr := lit ".m4a"

/-- `DEFAULT_FALLBACK_MESSAGE` -/
def defaultFallbackMessage : PyStr :=
  lit "Sorry — something went wrong while processing your message. Please try again."

/-- `_COMPLETE_REACTION` -/
def completeReaction : PyStr := lit "✅"

/-- `_ERROR_REACTION` -/
def errorReaction : PyStr := lit "❌"

/-! ### The calls -/

/-- `signal_client.send` -/
def send (chatId message : PyStr) : Action Bool := .call (.send chatId message) .ofExcept

/-- `signal_client.send_voice_note` -/
def sendVoiceNote (chatId : PyStr) (path : Path) : Action Bool :=
  .call (.sendVoiceNote chatId path) .ofExcept

/-- `signal_client.send_attachments` -/
def sendAttachments (chatId : PyStr) (paths : List Path) : Action Bool :=
  .call (.sendAttachments chatId paths) .ofExcept

/-- `signal_client.send_reaction` -/
def sendReaction (chatId emoji targetAuthor : PyStr) (targetTimestamp : ℤ) : Action Bool :=
  .call (.sendReaction chatId emoji targetAuthor targetTimestamp) .ofExcept

/-- `with temp_workspace() as workspace: body` -/
def withWorkspace {α : Type} (body : Action α) : Action α := do
  .call .openWorkspace .ofExcept
  body.tryFinally (.call .closeWorkspace fun _ => .pure ())

/-- The `finally` of the download client. -/
def closeClient (ownsClient : Bool) : Action Unit :=
  if ownsClient then .call .closeClient .ofExcept else .pure ()

/-! ### The parts of a reply -/

/-- `_react` -/
def react (payload : CallbackPayload) (emoji : PyStr) : Action Unit :=
  match intStr payload.messageKey with
  -- A key that is no number names no message to react to.
  | .error _ => .pure ()
  | .ok targetTimestamp =>
      ((sendReaction (recipient payload) emoji payload.userId targetTimestamp).bind
        fun _ => .pure ()).tryCatch fun _ => .pure ()

/-- The loop of `_send_text_chunks`: the number of chunks that were sent. -/
def sendChunks (chatId : PyStr) : List PyStr → Action Nat
  | [] => .pure 0
  | chunk :: chunks => do
      let ok ← send chatId chunk
      let sent ← sendChunks chatId chunks
      return (if ok then 1 else 0) + sent

/-- `_send_text_chunks` -/
def sendTextChunks (text : Option PyStr) (settings : Settings) (chatId : PyStr) :
    Action (Nat × Nat) := do
  let chunks ← Prog.ofExcept (chunkMessage (text.getD []) settings.chunkSize)
  let sent ← sendChunks chatId chunks
  return (sent, chunks.length)

/-- A field that is neither `None` nor empty. -/
def nonEmpty (field : Option PyStr) : Option PyStr := field.filter fun s => !s.isEmpty

/-- `has_voice` -/
def hasVoice (payload : CallbackPayload) : Bool :=
  (nonEmpty payload.voiceAudioUrl).isSome || (nonEmpty payload.voiceAudioBase64).isSome

section
variable (netlocOk : PyStr → Bool) (settings : Settings)

/-- The download of `_deliver_voice_note`. -/
def downloadVoice (payload : CallbackPayload) (sub : Path) : Action (Option Path) :=
  match nonEmpty payload.voiceAudioUrl with
  | some url =>
      downloadToTemp netlocOk settings url sub none voiceFallbackSuffix signalMaxAttachmentSize
  | none => .pure none

/-- The fallback of `_deliver_voice_note` to the base64 field. -/
def decodeVoice (payload : CallbackPayload) (sub : Path) : Option Path → Action (Option Path)
  | some path => .pure (some path)
  | none =>
      match nonEmpty payload.voiceAudioBase64 with
      | some b64 =>
          decodeBase64ToTemp b64 sub (lit "voice" ++ voiceFallbackSuffix) signalMaxAttachmentSize
      | none => .pure none

/-- The directory of the voice reply. -/
def voiceDir : Path := [lit "voice"]

/-- The audio of `_deliver_voice_note`. -/
def voiceAudio (payload : CallbackPayload) : Action (Option Path) := do
  mkdir voiceDir
  let path ← downloadVoice netlocOk settings payload voiceDir
  decodeVoice payload voiceDir path

/-- `_deliver_voice_note` -/
def deliverVoiceNote (payload : CallbackPayload) (chatId : PyStr) : Action Bool := do
  match ← voiceAudio netlocOk settings payload with
  | none => return false
  | some path => sendVoiceNote chatId path

/-- `f"att-{index}"` -/
def attachmentDir (index : Nat) : Path := [lit "att-" ++ (digitsOf index).map digitChr]

/-- The loop of `_deliver_attachments`: the paths, and whether every download succeeded. -/
def downloadAttachments : Nat → List OutboundAttachment → Action (List Path × Bool)
  | _, [] => .pure ([], true)
  | index, att :: atts => do
      let sub := attachmentDir index
      mkdir sub
      let path ← downloadToTemp netlocOk settings att.url sub att.filename [] signalMaxAttachmentSize
      let (paths, ok) ← downloadAttachments (index + 1) atts
      -- A download that fails does not stop the others.
      match path with
      | none => return (paths, false)
      | some path => return (path :: paths, ok)

/-- The send of `_deliver_attachments`. -/
def sendPaths (chatId : PyStr) (paths : List Path) : Action Bool :=
  if paths.isEmpty then .pure true else sendAttachments chatId paths

/-- `_deliver_attachments` -/
def deliverAttachments (attachments : List OutboundAttachment) (chatId : PyStr) :
    Action Bool := do
  let (paths, downloadOk) ← downloadAttachments netlocOk settings 0 attachments
  let sendOk ← sendPaths chatId paths
  return downloadOk && sendOk

/-- What the parts of a `complete` reply report. -/
structure Reply where
  voiceOk : Bool := false
  sent : Nat := 0
  expected : Nat := 0
  attachmentsOk : Bool := true
deriving DecidableEq, Repr

/-- `voice_ok` -/
def voicePart (payload : CallbackPayload) (chatId : PyStr) : Action Bool :=
  if hasVoice payload then deliverVoiceNote netlocOk settings payload chatId else .pure false

/-- `sent, expected`. A delivered voice note suppresses the text. -/
def textPart (payload : CallbackPayload) (chatId : PyStr) (voiceOk : Bool) :
    Action (Nat × Nat) :=
  if voiceOk then .pure (0, 0) else sendTextChunks payload.text settings chatId

/-- `attachments_ok` -/
def attachmentPart (payload : CallbackPayload) (chatId : PyStr) : Action Bool :=
  if payload.attachments.isEmpty then .pure true
  else deliverAttachments netlocOk settings payload.attachments chatId

/-- The parts of a reply with media, in the workspace. -/
def deliverMedia (payload : CallbackPayload) (chatId : PyStr) : Action Reply := do
  let voiceOk ← voicePart netlocOk settings payload chatId
  let (sent, expected) ← textPart settings payload chatId voiceOk
  let attachmentsOk ← attachmentPart netlocOk settings payload chatId
  return { voiceOk, sent, expected, attachmentsOk }

/-- `reply_ok` -/
def replyOk (payload : CallbackPayload) (reply : Reply) : Bool :=
  if hasVoice payload && reply.voiceOk then true
  else if 0 < reply.expected then reply.sent == reply.expected
  else !hasVoice payload

/-- `dispatch_callback` for a `complete` payload. -/
def dispatchComplete (ownsClient : Bool) (payload : CallbackPayload) : Action Bool := do
  let chatId := recipient payload
  if hasVoice payload || !payload.attachments.isEmpty then
    -- The workspace is removed before the client is closed.
    let reply ← (withWorkspace (deliverMedia netlocOk settings payload chatId)).tryFinally
      (closeClient ownsClient)
    react payload completeReaction
    return replyOk payload reply && reply.attachmentsOk
  else
    let (sent, expected) ← sendTextChunks payload.text settings chatId
    react payload completeReaction
    -- A reply without text counts as delivered.
    if expected = 0 then return true
    return replyOk payload { sent, expected }

/-- `dispatch_callback`. The gateway opens the download client itself if it is given
none. -/
def dispatchCallback (ownsClient : Bool) (payload : CallbackPayload) : Action Bool :=
  match payload.type with
  | .error => do
      let sentOk ← send (recipient payload) defaultFallbackMessage
      react payload errorReaction
      return sentOk
  | .progress => do
      let (sent, expected) ← sendTextChunks payload.text settings (recipient payload)
      return expected == 0 || sent == expected
  | .status => .pure true
  | .complete => dispatchComplete netlocOk settings ownsClient payload

end

end SignalGateway.Delivery
