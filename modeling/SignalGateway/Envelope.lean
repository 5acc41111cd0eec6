import SignalGateway.Config
import SignalGateway.Py.Json

/-!
# `SignalGateway.Envelope`: from a raw envelope to a message

The model of `envelope.py`. The source checks few types, so a field of the envelope can
hold any JSON value, and a method call on a value of the wrong type raises. `InboundMessage`
keeps such fields as `Json`.

`parseEnvelope` goes through the steps of the source in its order, because the order decides
whether an envelope is dropped or raises. The definitions under "The steps of `parse_envelope`"
are one step each:

* `isMetadata` and `dataMessageOf` find the data message.
* `renderedText` puts the tags of the mentions into the text, before anything looks at it.
* `lacksMention` is the gate for groups, and `isStale` the cutoff.
* `chatIdOf` and `replyToIdOf` make the ids of the message.

Indexing follows Python. A mention can start at a negative number, and `sliceTo` counts it from the
end of the text.
-/

set_option autoImplicit false

namespace SignalGateway.Envelope

/-- `_GROUP_PREFIX` -/
def groupPrefix : PyStr := lit "group:"

/-- `_MENTION_PLACEHOLDER` -/
def mentionPlaceholder : PyStr := lit "\uFFFC"

/-- `AttachmentRef` -/
structure AttachmentRef where
  id : PyStr
  contentType : Json := .null
  size : Json := .null
  filename : Json := .null

/-- `InboundMessage` -/
structure InboundMessage where
  userId : Json
  chatId : Json
  text : PyStr
  timestampMs : ℤ
  isGroup : Bool := false
  sourceNumber : Json := .null
  sourceUuid : Json := .null
  senderName : Json := .str []
  groupId : Json := .null
  groupName : Json := .null
  replyToId : Option PyStr := none
  replyToText : Json := .null
  attachments : List AttachmentRef := []

variable (repr : Json → Except PyError PyStr)

/-- The name a mention is rendered with. -/
def mentionIdentifier (mention : Json) : Except PyError Json := do
  let name ← mention.get? "name"
  let number ← mention.get? "number"
  let uuid ← mention.get? "uuid"
  return ((name.or number).or uuid).or (.str (lit "user"))

/-- The loop body of `_render_mentions`. -/
def renderMention (text : PyStr) (mention : Json × ℤ) : Except PyError PyStr := do
  let length ← mention.1.getOr? "length" (.int 1)
  let identifier ← mentionIdentifier mention.1
  let tag ← identifier.toStr repr
  let length ← length.toIndex
  -- The spans in front of the tag keep their offsets, since the last mention comes first.
  return sliceTo text mention.2 ++ (lit "@" ++ tag) ++ sliceFrom text (mention.2 + length)

/-- The mentions with their starts, the last start first. A start that is no integer fails
in the sort or in the slice. -/
def mentionOrder (mentions : Json) : Except PyError (List (Json × ℤ)) := do
  let items ← mentions.iter
  let keys ← items.mapM fun mention => mention.getOr? "start" (.int 0)
  let starts ← keys.mapM Json.toIndex
  return (items.zip starts).mergeSort fun a b => b.2 ≤ a.2

/-- `_render_mentions` -/
def renderMentions (text mentions : Json) : Except PyError Json := do
  if !mentions.truthy then return text
  if !(← text.contains mentionPlaceholder) then return text
  let order ← mentionOrder mentions
  match text with
  | .str s => return .str (← order.foldlM (renderMention repr) s)
  -- A list or a dict has no slice that joins with a tag.
  | _ => throw .typeError

/-- `_group_allowed` -/
def groupAllowed (groupId : Json) (allowed : List PyStr) : Bool :=
  if allowed.isEmpty then false
  else allowed.contains (lit "*") || allowed.any fun id => groupId.eqStr id

/-- `any(m.get("number") == account or m.get("uuid") == account for m in mentions)` -/
def anyMentionOf (account : PyStr) : List Json → Except PyError Bool
  | [] => .ok false
  | mention :: mentions => do
      -- `any` stops at the first mention of the bot.
      if (← mention.get? "number").eqStr account then return true
      if (← mention.get? "uuid").eqStr account then return true
      anyMentionOf account mentions

/-- `_bot_mentioned` -/
def botMentioned (account : PyStr) (text mentions : Json) : Except PyError Bool := do
  if !account.isEmpty then
    if ← text.contains (lit "@" ++ account) then return true
  anyMentionOf account (← mentions.iter)

/-- The loop body of `_parse_attachments`. -/
def parseAttachment (att : Json) : Except PyError (Option AttachmentRef) := do
  let id ← att.get? "id"
  if !id.truthy then return none
  return some
    { id := ← id.toStr repr
      contentType := ← att.get? "contentType"
      size := ← att.get? "size"
      filename := ← att.get? "filename" }

/-- `_parse_attachments` -/
def parseAttachments (raw : Json) : Except PyError (List AttachmentRef) := do
  return (← (← raw.iter).mapM (parseAttachment repr)).reduceOption

/-- `clock - timestamp_ms / 1000 > settings.message_age_cutoff_seconds` -/
def olderThanCutoff (clock : PyFloat) (timestampMs : Json) (cutoff : ℤ) :
    Except PyError Bool :=
  match timestampMs with
  | .float x => .ok (PyFloat.intLt cutoff (clock.sub (x.divNat 1000)))
  | _ =>
      match timestampMs.intOrNone with
      | none => .error .typeError
      | some i =>
          match intTrueDiv i 1000 with
          | some x => .ok (PyFloat.intLt cutoff (clock.sub x))
          -- The quotient of a huge integer is no float.
          | none => .error .overflowError

/-- `text`, which has the method `strip` if it is a string. -/
def asText : Json → Except PyError PyStr
  | .str s => .ok s
  | _ => .error .attributeError

/-! ### The steps of `parse_envelope` -/

/-- Step 1: a sync, receipt, typing or story envelope. -/
def isMetadata (envelope : Json) : Except PyError Bool := do
  if ← envelope.contains (lit "syncMessage") then return true
  if ← envelope.contains (lit "receiptMessage") then return true
  if ← envelope.contains (lit "typingMessage") then return true
  -- The others count by their key alone.
  return (← envelope.get? "storyMessage").truthy

/-- Step 4: the data message, or the one inside an edit. -/
def dataMessageOf (envelope : Json) : Except PyError Json := do
  let direct ← envelope.get? "dataMessage"
  if direct.truthy then return direct
  ((← envelope.get? "editMessage").or (.obj [])).get? "dataMessage"

/-- Step 6: the text with its mentions rendered. -/
def renderedText (message mentions : Json) : Except PyError Json :=
  if message.truthy && mentions.truthy then renderMentions repr message mentions
  else .ok message

/-- Step 7: a group message that lacks the mention it needs. -/
def lacksMention (settings : Settings) (isGroup : Bool) (text mentions : Json) :
    Except PyError Bool :=
  if isGroup && settings.signalRequireMention then
    (!·) <$> botMentioned settings.signalAccount text mentions
  else .ok false

/-- Step 8: the id of the quoted message. -/
def replyToIdOf (quote : Json) : Except PyError (Option PyStr) := do
  match ← quote.get? "id" with
  | .null => return none
  | id => return some (← id.toStr repr)

/-- Step 10: a message from before the cutoff. -/
def isStale (settings : Settings) (clock : PyFloat) (timestampMs : Json) :
    Except PyError Bool :=
  if timestampMs.truthy then
    olderThanCutoff clock timestampMs settings.messageAgeCutoffSeconds
  else .ok false

/-- The chat of a message. -/
def chatIdOf (userId groupId : Json) : Except PyError Json :=
  if groupId.truthy then (fun id => .str (groupPrefix ++ id)) <$> groupId.toStr repr
  else .ok userId

/-- `parse_envelope`. The clock is `now`, or the current time. -/
def parseEnvelope (raw : Json) (settings : Settings) (clock : PyFloat) :
    Except PyError (Option InboundMessage) := do
  let envelope ← raw.getOr? "envelope" raw
  if ← isMetadata envelope then return none
  -- Steps 2 and 3: a sender, and not ourselves.
  let sourceNumber ← envelope.get? "sourceNumber"
  let sourceUuid ← envelope.get? "sourceUuid"
  let fallback ← envelope.get? "source"
  let userId := (sourceUuid.or sourceNumber).or fallback
  if !userId.truthy then return none
  if [sourceNumber, sourceUuid, fallback].any (Json.eqStr settings.signalAccount) then
    return none
  let dataMessage ← dataMessageOf envelope
  if !dataMessage.truthy then return none
  -- Step 5: an allowed group.
  let groupInfo := (← dataMessage.get? "groupInfo").or (.obj [])
  let groupId ← groupInfo.get? "groupId"
  let isGroup := groupId.truthy
  if isGroup && !groupAllowed groupId settings.signalGroupAllowedUsers then return none
  let message := (← dataMessage.get? "message").or (.str [])
  let mentions := (← dataMessage.get? "mentions").or (.arr [])
  let text ← renderedText repr message mentions
  if ← lacksMention settings isGroup text mentions then return none
  let quote := (← dataMessage.get? "quote").or (.obj [])
  let replyToId ← replyToIdOf repr quote
  let attachments ← parseAttachments repr ((← dataMessage.get? "attachments").or (.arr []))
  -- Step 9: something to relay. Any attachment counts.
  let text ← asText text
  if (strip text).isEmpty && attachments.isEmpty then return none
  let timestampMs := (← envelope.get? "timestamp").or (.int 0)
  if ← isStale settings clock timestampMs then return none
  return some
    { userId
      chatId := ← chatIdOf repr userId groupId
      text
      timestampMs := ← timestampMs.toInt
      isGroup, sourceNumber, sourceUuid
      senderName := (← envelope.get? "sourceName").or (.str [])
      groupId
      groupName := ← groupInfo.get? "groupName"
      replyToId
      replyToText := ← quote.get? "text"
      attachments }

end SignalGateway.Envelope
