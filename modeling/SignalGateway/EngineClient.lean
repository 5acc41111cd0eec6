import SignalGateway.Media

/-!
# `SignalGateway.EngineClient`: the request to the worker

The model of `build_chat_request` of `engine_client.py`.

A body is a list of items: the fixed ones, then those of the audio, then those of a group. Here
`dict` stands for a `dict` with literal keys, all different, so the order of its items does not
matter to a reader that looks up a key.

The message key is the decimal text of the timestamp. `str` of an integer raises above its limit of
digits, and so does `buildChatRequest`. The POST and its retries are in `SignalGateway.Submit`.
-/

set_option autoImplicit false

namespace SignalGateway.EngineClient

open Envelope Media

/-- `CLIENT_ID` -/
def clientId : PyStr := lit "signal-gateway"

/-- A `dict` with literal keys. -/
def dict (items : List (String × Json)) : List (PyStr × Json) :=
  items.map fun item => (lit item.1, item.2)

/-- `build_chat_request`, as the items of the body. -/
def buildChatRequest (message : InboundMessage) (settings : Settings)
    (audio : Option InboundAudio) : Except PyError (List (PyStr × Json)) := do
  let messageKey ← strInt message.timestampMs
  let body := dict
    [("client_id", .str clientId), ("user_id", message.userId),
      ("message_type", .str (if audio.isSome then lit "audio" else lit "text")),
      ("message", .str message.text), ("message_key", .str messageKey),
      ("progress_callback_url", .str settings.progressCallbackUrl),
      ("progress_mode", .str (lit "iteration")), ("progress_throttle_seconds", .int 3),
      ("voice_format", .str (lit "aac")), ("org", .str settings.engineOrg)]
  let voice := match audio with
    | some audio => dict
        [("audio_base64", .str audio.audioBase64), ("audio_format", .str audio.audioFormat)]
    | none => []
  -- The speaker is named in a group only.
  let speaker :=
    if message.senderName.truthy then dict [("speaker", message.senderName)] else []
  let group :=
    if message.isGroup then
      dict [("chat_type", .str (lit "group")), ("chat_id", message.chatId)] ++ speaker
    else []
  return body ++ voice ++ group

end SignalGateway.EngineClient
