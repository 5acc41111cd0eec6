import SignalGateway.Lib.Calls
import SignalGateway.EngineClient

/-!
# `SignalGateway.Relay`: the inbound handler

The model of `_make_inbound_handler` of `app.py`, with `get_attachment` of
`signal_client.py` and `fetch_inbound_audio` of `media.py`. The handler reacts to the
message, fetches its audio and submits it. Reactions, the attachment RPC and the submission
are calls, and any answer to them is possible.

A reaction and a submission return a flag or raise. The attachment RPC returns a JSON value, with
`null` for `None`, and `attachmentBytes` of `Media` can raise on it. `relay` ignores what the
reaction returns or raises, and nothing else.
-/

set_option autoImplicit false

namespace SignalGateway.Relay

open Envelope Media

/-- The calls of the handler. The RPC of an attachment returns its `result`, or `None` when
it failed. -/
inductive Op where
  | sendReaction (chatId : Json) (emoji : PyStr) (targetAuthor : Json) (targetTimestamp : ℤ)
  | rpcGetAttachment (id : PyStr)
  | submit (message : InboundMessage) (audio : Option InboundAudio)

/-- The answers to the calls. -/
def Op.Answer : Op → Type
  | .sendReaction .. => Except PyError Bool
  | .rpcGetAttachment _ => Json
  | .submit .. => Except PyError Bool

/-- What the handler calls. -/
abbrev calls : Interface := ⟨Op, Op.Answer⟩

/-- `send_reaction` -/
def sendReaction (chatId : Json) (emoji : PyStr) (targetAuthor : Json) (targetTimestamp : ℤ) :
    Prog calls PyError Bool :=
  .call (.sendReaction chatId emoji targetAuthor targetTimestamp) .ofExcept

/-- `submit` -/
def submit (message : InboundMessage) (audio : Option InboundAudio) :
    Prog calls PyError Bool :=
  .call (.submit message audio) .ofExcept

/-- `get_attachment` -/
def getAttachment (id : PyStr) : Prog calls PyError (Option Bytes) :=
  .call (.rpcGetAttachment id) fun result => .ofExcept (attachmentBytes result)

/-- `fetch_inbound_audio` -/
def fetchInboundAudio (ref : AttachmentRef) (maxBytes : Nat) :
    Prog calls PyError (Option InboundAudio) := do
  match ← Prog.ofExcept (audioFormat ref) with
  | none => return none
  | some format =>
      -- A declared size above the cap saves the RPC.
      if ← Prog.ofExcept (declaredTooLarge ref maxBytes) then return none
      let data ← getAttachment ref.id
      return encodeAudio format data maxBytes

/-- The audio that goes with a message. -/
def audioOf (message : InboundMessage) : Prog calls PyError (Option InboundAudio) := do
  match ← Prog.ofExcept (selectInboundAudio message.attachments) with
  | none => return none
  | some ref => fetchInboundAudio ref maxInboundAudioBytes

/-- `_relay` -/
def relay (message : InboundMessage) : Prog calls PyError Unit := do
  -- The acknowledgement never blocks the relay.
  ((sendReaction message.chatId (lit "👀") message.userId message.timestampMs).bind
    fun _ => .pure ()).tryCatch fun _ => .pure ()
  let audio ← audioOf message
  let _ ← submit message audio

end SignalGateway.Relay
