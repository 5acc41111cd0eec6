import SignalGateway.Lib.Calls
import SignalGateway.Config
import SignalGateway.Py.Number

/-!
# `SignalGateway.Rpc`: the JSON-RPC call and its rate limits

The model of `_rpc` and `_send_attachment_batch` of `signal_client.py`, with the two helpers of
`signal_rate_limit.py` that read a rate limit out of an error. The POST of an RPC is a call, and
any response to it is possible. Its outcome is computed from the response, and the hint of a rate
limit is a float.

* `extractRetryAfterSeconds` and `isSignalRateLimitError` read an error of the daemon.
* `rpcResult` is what `_rpc` makes of a response: a result, with `null` for `None`, or a rate
  limit that it raises.
* `sendAttachmentBatch` is a program over the scheduler, the clock and the POSTs.

The texts of floats and containers and the comparison of lists are parameters.
-/

set_option autoImplicit false

namespace SignalGateway.Rpc

open Regex

/-- `SIGNAL_RATE_LIMIT_MAX_ATTEMPTS` -/
def signalRateLimitMaxAttempts : Nat := 2

/-- `_signal_send_timeout` -/
def signalSendTimeout (numAttachments : ℤ) : ℚ :=
  if numAttachments ≤ 0 then 30 else max 60 (5 * numAttachments)

/-- `SignalSchedulerError`: more tokens than the capacity. -/
structure SignalSchedulerError where
  n : ℤ
deriving DecidableEq

/-- What `acquire` can raise, and with it a send. -/
inductive SendError where
  | scheduler (e : SignalSchedulerError)
  | other (e : PyError)
deriving DecidableEq

/-! ### The error of a response -/

/-- `SIGNAL_RPC_ERROR_RATELIMIT` -/
def signalRpcErrorRatelimit : ℤ := -5

/-- `SignalRateLimitError` -/
structure SignalRateLimitError where
  message : PyStr
  retryAfter : Option PyFloat
deriving DecidableEq

/-- A letter of a pattern with `re.IGNORECASE`. Outside ASCII only the long `s` is a form of
one of these letters. -/
def anyCase (ch : Char) (n : Nat) : Bool :=
  n == ch.toLower.toNat || n == ch.toUpper.toNat || (ch.toLower == 's' && n == 0x17f)

/-- A text with `re.IGNORECASE`. -/
def anyCaseText (s : String) : Re Nat := .seqs (s.toList.map fun ch => .one (anyCase ch))

/-- `\d+(?:\.\d+)?` -/
def secondsRe : Re Nat :=
  .seq (.rep true 1 none isDecimalCode)
    (.opt (.seq (.one (chr '.')) (.rep true 1 none isDecimalCode)))

/-- `_RETRY_AFTER_RE`: `Retry after (\d+(?:\.\d+)?)\s*second` -/
def retryAfterRe : Re Nat :=
  .seq (anyCaseText "Retry after ")
    (.seq (.group secondsRe) (.seq (.rep true 0 none isSpaceCode) (anyCaseText "second")))

/-- `err.get("code") == SIGNAL_RPC_ERROR_RATELIMIT` -/
def isRatelimitCode : Json → Bool
  | .int n => n == signalRpcErrorRatelimit
  | .float (.finite q _) => q == signalRpcErrorRatelimit
  | _ => false

/-- `[x for x in results if isinstance(x, dict) and ...]`: the hint of an entry. -/
def resultHint : Json → Option Json
  | .obj items =>
      let hint := Json.lookup items "retryAfterSeconds"
      if hint.truthy then some hint else none
  | _ => none

/-- `candidates` -/
def candidates (items : List (PyStr × Json)) : Except PyError (List Json) := do
  let data := (Json.lookup items "data").or (.obj [])
  let response := (← data.get? "response").or (.obj [])
  let results := (← response.get? "results").or (.arr [])
  return (← results.iter).filterMap resultHint

/-- The seconds in a message. -/
def messageSeconds (msg : PyStr) : Except PyError (Option PyFloat) :=
  match search (codes msg) retryAfterRe 0 with
  | none => .ok none
  | some m =>
      let (i, j) := m.groups.headD (m.start, m.stop)
      some <$> (Json.str (slice msg i j)).toFloat

section
variable (repr : Json → Except PyError PyStr)
  (listGt : List Json → List Json → Except PyError Bool)

/-- `str(err.get("message", "")) if isinstance(err, dict) else str(err)` -/
def errorMessage : Json → Except PyError PyStr
  | .obj items => ((items.lookup (lit "message")).getD (.str [])).toStr repr
  | err => err.toStr repr

/-- `_extract_retry_after_seconds` -/
def extractRetryAfterSeconds (err : Json) : Except PyError (Option PyFloat) := do
  let hints ← match err with
    | .obj items => candidates items
    | _ => .ok []
  match hints with
  | hint :: hints => some <$> (← Json.maxFrom listGt hint hints).toFloat
  | [] => messageSeconds (← errorMessage repr err)

/-- Whether the error has the typed code. -/
def hasRatelimitCode : Json → Bool
  | .obj items => isRatelimitCode (Json.lookup items "code")
  | _ => false

/-- `_is_signal_rate_limit_error` -/
def isSignalRateLimitError (err : Json) : Except PyError Bool := do
  if hasRatelimitCode err then return true
  let message ← errorMessage repr err
  let msgLower := lower message
  return decide (lit "[429]" <:+: message) || decide (lit "ratelimit" <:+: msgLower)
    || decide (lit "retrylaterexception" <:+: msgLower)
    || decide (lit "retry after" <:+: msgLower)

/-! ### The call -/

/-- A response of the daemon. `body` is what `resp.json()` returns or raises. -/
structure Response where
  status : ℤ
  body : Except PyError Json

/-- What the `try` of `_rpc` can raise. -/
inductive RpcError where
  | rateLimit (e : SignalRateLimitError)
  | other (e : PyError)

/-- A computation that raises no rate limit. -/
def ofPy {α : Type} (x : Except PyError α) : Except RpcError α := x.mapError .other

/-- `resp.raise_for_status()` -/
def raiseForStatus (response : Response) : Except PyError Unit :=
  if 200 ≤ response.status ∧ response.status ≤ 299 then .ok () else .error .httpError

/-- `data["error"]` -/
def errorOf : Json → Except PyError Json
  | .obj items => .ok (Json.lookup items "error")
  | _ => .error .typeError

/-- The end of the `try` of `_rpc`. -/
def readData (raiseOnRateLimit : Bool) (data : Json) : Except RpcError Json := do
  if ← ofPy (data.contains (lit "error")) then
    let err ← ofPy (errorOf data)
    -- An error is a failure, and a rate limit is raised if the caller asks for it.
    if raiseOnRateLimit then
      if ← ofPy (isSignalRateLimitError repr err) then
        let errMsg ← ofPy (errorMessage repr err)
        let retryAfter ← ofPy (extractRetryAfterSeconds repr listGt err)
        throw (.rateLimit ⟨errMsg, retryAfter⟩)
    return .null
  else ofPy (data.get? "result")

/-- The body of the `try` of `_rpc`. -/
def exchange (raiseOnRateLimit : Bool) (answer : Except PyError Response) :
    Except RpcError Json := do
  let response ← ofPy answer
  ofPy (raiseForStatus response)
  let data ← ofPy response.body
  readData repr listGt raiseOnRateLimit data

/-- `_rpc`, behind the POST. Every error but a rate limit is logged, and `None` returned. -/
def rpcResult (raiseOnRateLimit : Bool) (answer : Except PyError Response) :
    Except SignalRateLimitError Json :=
  match exchange repr listGt raiseOnRateLimit answer with
  | .ok result => .ok result
  | .error (.rateLimit e) => .error e
  -- Errors of the extractor are among them.
  | .error (.other _) => .ok .null

/-! ### The batch -/

/-- The calls of `_send_attachment_batch`, down to the POST of the RPC. -/
inductive Op where
  | acquire (n : ℤ)
  | monotonic
  | post (method : PyStr) (params : List (PyStr × Json)) (rpcTimeout : ℚ)
  | reportRpcDuration (rpcDuration : ℚ) (nAttachments : ℤ)
  | feedback (retryAfter : Option PyFloat) (nAttempted : ℤ)
  | sleep (seconds : ℚ)

/-- The answers to the calls. -/
def Op.Answer : Op → Type
  | .acquire _ => Except SendError ℚ
  | .monotonic => ℚ
  | .post _ _ _ => Except PyError Response
  | .reportRpcDuration _ _ | .feedback _ _ | .sleep _ => Unit

/-- What `_send_attachment_batch` calls. -/
abbrev calls : Interface := ⟨Op, Op.Answer⟩

/-- `_send_attachment_batch`, or a part of it. -/
abbrev Action (α : Type) := Prog calls SendError α

/-- The attempts from number `attempt` on, of which `left` are left. -/
def sendAttempts (params : List (PyStr × Json)) (n : ℤ) : Nat → Nat → Action Bool
  | _, 0 => .pure false
  | attempt, left + 1 =>
      .call (.acquire n) fun acquired : Except SendError ℚ =>
        (Prog.ofExcept acquired).bind fun _ =>
          .call .monotonic fun t0 : ℚ =>
            .call (.post (lit "send") params (signalSendTimeout n)) fun answer =>
              match rpcResult repr listGt true answer with
              | .ok .null =>
                  -- A failure that is no rate limit is tried again after a simple backoff.
                  if attempt < signalRateLimitMaxAttempts then
                    .call (.sleep (2 ^ attempt)) fun _ => sendAttempts params n (attempt + 1) left
                  else .pure false
              | .ok _ =>
                  .call .monotonic fun now : ℚ =>
                    .call (.reportRpcDuration (now - t0) n) fun _ => .pure true
              | .error e =>
                  .call (.feedback e.retryAfter n) fun _ =>
                    -- The bucket is emptied also behind the last attempt.
                    if signalRateLimitMaxAttempts ≤ attempt then .pure false
                    else sendAttempts params n (attempt + 1) left

/-- `_send_attachment_batch` -/
def sendAttachmentBatch (params : List (PyStr × Json)) (n : ℤ) : Action Bool :=
  sendAttempts repr listGt params n 1 signalRateLimitMaxAttempts

end

end SignalGateway.Rpc
