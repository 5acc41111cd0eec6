import SignalGateway.RateLimit
import SignalGateway.Rpc
import SignalGateway.Markdown
import SignalGateway.SignalClient

/-!
# `SignalGateway.Client`: the signal client, down to its RPCs

The model of the methods of `SignalClient` in `signal_client.py` that send and react. The
POST of an RPC is a call, and any response to it is possible.

The lookup of a recipient and the scheduler are calls, too. `Recipients` has the state of the
lookups, and `RateLimit` that of the scheduler. `SendAttachments` runs a send over the scheduler.

* `rpc`: an RPC whose failure is `None`.
* `send`, `sendVoiceNote`, `sendAttachments`, `sendReaction`: the methods that a delivery calls.
* `batchesOf`: how `sendAttachments` cuts the list of files.

Waits are exact rationals, like the times of the scheduler.
-/

set_option autoImplicit false

namespace SignalGateway.Client

open Envelope EngineClient SignalClient Markdown
open RateLimit (Scheduler)
open Rpc (SendError)

/-- `SIGNAL_MAX_ATTACHMENTS_PER_MSG` -/
def signalMaxAttachmentsPerMsg : Nat := 32

/-- `SIGNAL_BATCH_PACING_NOTICE_THRESHOLD` -/
def signalBatchPacingNoticeThreshold : ℚ := 10

/-- The calls of the client. -/
inductive Op where
  | resolveRecipient (chatId : PyStr)
  | estimateWait (n : ℤ)
  /-- A call of an RPC or of a batch. -/
  | rpc (op : Rpc.Op)

/-- The answers to the calls. -/
def Op.Answer : Op → Type
  | .resolveRecipient _ => Except PyError Json
  | .estimateWait _ => Except PyError ℚ
  | .rpc op => op.Answer

/-- What the client calls. -/
abbrev calls : Interface := ⟨Op, Op.Answer⟩

/-- A method of the client, or a part of it. -/
abbrev Action (α : Type) := Prog calls SendError α

/-- A computation of the client itself. -/
def ofPy {α : Type} (x : Except PyError α) : Action α := .ofExcept (x.mapError .other)

/-- `_resolve_recipient` -/
def resolveRecipient (chatId : PyStr) : Action Json := .call (.resolveRecipient chatId) ofPy

/-- `_apply_destination` -/
def applyDestination (params : List (PyStr × Json)) (chatId : PyStr) :
    Action (List (PyStr × Json)) :=
  SignalClient.applyDestination resolveRecipient params chatId

/-- `result is not None` -/
def isResult : Json → Bool
  | .null => false
  | _ => true

/-- The parameters of `text_styles`. -/
def textStyleParams : List PyStr → List (PyStr × Json)
  | [] => []
  | [style] => [(lit "textStyle", .str style)]
  | styles => [(lit "textStyles", .arr (styles.map .str))]

/-! ### The notice -/

/-- `round(q)` -/
def roundInt (q : ℚ) : ℤ := (Scheduler.pyRound q 0).floor

/-- `_format_wait` -/
def formatWait (seconds : ℚ) : Except PyError PyStr := do
  let s := max 0 seconds
  if s < 90 then return (← strInt (roundInt s)) ++ lit "s"
  return (← strInt (max 1 (roundInt (s / 60)))) ++ lit " min"

/-- The text of the notice. -/
def noticeText (nextBatchIdx totalBatches : Nat) (wait : ℚ) : Except PyError PyStr := do
  return lit "(More files coming — pausing ~" ++ (← formatWait wait)
    ++ lit " for Signal rate limit, batch " ++ (← strInt nextBatchIdx) ++ lit "/"
    ++ (← strInt totalBatches) ++ lit ".)"

/-! ### The batches -/

/-- `[file_paths[i : i + 32] for i in range(0, len(file_paths), 32)]` -/
def batchesOf (filePaths : List PyStr) : List (List PyStr) :=
  let count := (filePaths.length + signalMaxAttachmentsPerMsg - 1) / signalMaxAttachmentsPerMsg
  (List.range' 0 count signalMaxAttachmentsPerMsg).map fun i =>
    Regex.slice filePaths i (i + signalMaxAttachmentsPerMsg)

/-- The parameters of the batch number `idx`. -/
def batchParams (baseParams : List (PyStr × Json)) (message : PyStr) (idx : Nat)
    (batch : List PyStr) : List (PyStr × Json) :=
  -- Only the first batch carries the text.
  addParam (addParam baseParams "message" (.str (if idx = 0 then message else [])))
    "attachments" (.arr (batch.map .str))

section
variable (repr : Json → Except PyError PyStr)
  (listGt : List Json → List Json → Except PyError Bool) (isWord : Nat → Bool)
  (settings : Settings)

/-! ### RPCs -/

/-- `rpc_timeout` of a call that does not set it. -/
def defaultRpcTimeout : ℚ := 30

/-- `_rpc` without `raise_on_rate_limit`. A failed RPC is `None`. -/
def rpc (method : String) (params : List (PyStr × Json)) : Action Json :=
  .call (.rpc (.post (lit method) params defaultRpcTimeout)) fun answer =>
    .pure ((Rpc.rpcResult repr listGt false answer).toOption.getD .null)

/-- `_send_attachment_batch` -/
def sendAttachmentBatch (params : List (PyStr × Json)) (n : ℤ) : Action Bool :=
  (Rpc.sendAttachmentBatch repr listGt params n).lift Op.rpc (fun _ x => x) id

/-! ### Sending -/

/-- The text and the styles of `send`. -/
def styled (message : PyStr) (textStyles : Option (List PyStr)) :
    Except PyError (PyStr × List PyStr) :=
  match textStyles with
  | some textStyles => .ok (message, textStyles)
  | none => do
      let (message, styles) ← markdownToSignal isWord message
      return (message, styles.map fun style => lit style.format)

/-- `_send_with_attachments` -/
def sendWithAttachments (params : List (PyStr × Json)) (attachments : List PyStr) :
    Action Bool :=
  sendAttachmentBatch repr listGt (addParam params "attachments" (.arr (attachments.map .str)))
    attachments.length

/-- `send` -/
def send (chatId message : PyStr) (attachments : List PyStr)
    (textStyles : Option (List PyStr)) : Action Bool := do
  let (message, textStyles) ← ofPy (styled isWord message textStyles)
  let params := dict [("account", .str settings.signalAccount), ("message", .str message)]
  let params ← applyDestination (params ++ textStyleParams textStyles) chatId
  if !attachments.isEmpty then sendWithAttachments repr listGt params attachments
  else
    let result ← rpc repr listGt "send" params
    return isResult result

/-- `send_voice_note` -/
def sendVoiceNote (chatId filePath : PyStr) : Action Bool := do
  let params ← applyDestination
    (dict [("account", .str settings.signalAccount), ("message", .str []),
      ("attachments", .arr [.str filePath]), ("voiceNote", .bool true)])
    chatId
  sendAttachmentBatch repr listGt params 1

/-- `_notify_batch_pacing` -/
def notifyBatchPacing (chatId : PyStr) (nextBatchIdx totalBatches : Nat) (wait : ℚ) :
    Action Unit :=
  (do
    let text ← ofPy (noticeText nextBatchIdx totalBatches wait)
    let _ ← send repr listGt isWord settings chatId text [] none
    return () : Action Unit).tryCatch fun _ => .pure ()

/-- The loop over the batches of `send_attachments`. -/
def sendBatches (chatId : PyStr) (baseParams : List (PyStr × Json)) (message : PyStr)
    (total : Nat) : Nat → Bool → List (List PyStr) → Action Bool
  | _, allOk, [] => .pure allOk
  | idx, allOk, batch :: batches =>
      let n : ℤ := batch.length
      .call (.estimateWait n) fun wait : Except PyError ℚ => do
        let wait ← ofPy wait
        -- The notice goes out before the wait it announces.
        if signalBatchPacingNoticeThreshold ≤ wait then
          notifyBatchPacing repr listGt isWord settings chatId (idx + 1) total wait
        let ok ← sendAttachmentBatch repr listGt (batchParams baseParams message idx batch) n
        -- A batch that fails does not stop the loop.
        sendBatches chatId baseParams message total (idx + 1) (if ok then allOk else false) batches

/-- `send_attachments` -/
def sendAttachments (chatId : PyStr) (filePaths : List PyStr) (message : PyStr) :
    Action Bool := do
  if filePaths.isEmpty then return true
  -- The recipient is looked up once for all batches.
  let baseParams ← applyDestination (dict [("account", .str settings.signalAccount)]) chatId
  let batches := batchesOf filePaths
  sendBatches repr listGt isWord settings chatId baseParams message batches.length 0 true batches

/-! ### Reactions -/

/-- `send_reaction` -/
def sendReaction (chatId emoji : PyStr) (targetAuthor : Json) (targetTimestamp : ℤ) :
    Action Bool := do
  let params ← applyDestination
    (dict [("account", .str settings.signalAccount), ("emoji", .str emoji),
      ("targetAuthor", targetAuthor), ("targetTimestamp", .int targetTimestamp)])
    chatId
  let result ← rpc repr listGt "sendReaction" params
  return isResult result

end

end SignalGateway.Client
