import SignalGateway.Lib.Calls
import SignalGateway.EngineClient
import SignalGateway.Py.Number

/-!
# `SignalGateway.Submit`: the submission to the worker

The model of `_retry_after_seconds` and of `EngineClient` in `engine_client.py`. The POST and
the sleep are calls. A POST answers with a response or raises, and any response is possible:
its body is what `response.json()` returns or raises.

* `retryAfterSeconds` is the wait behind a 429: the field of the body, else the header, else the
  default. It clamps the number to the cap, with Python's `max` and `min` on floats, so a NaN
  comes through.
* `attempts` has the number of the attempt, and the attempts that are left as its fuel.
* `submit` makes the body first. If that raises, there is no POST.
-/

set_option autoImplicit false

namespace SignalGateway.Submit

open Envelope Media EngineClient

/-- `_MAX_ATTEMPTS` -/
def maxAttempts : Nat := 3

/-- `_DEFAULT_RETRY_AFTER_S` -/
def defaultRetryAfterS : PyFloat := .finite 5 (PyFloat.bound_of_small (by norm_num))

/-- `_RETRY_AFTER_CAP_S` -/
def retryAfterCapS : PyFloat := .finite 60 (PyFloat.bound_of_small (by norm_num))

/-- `0.0` -/
def zeroS : PyFloat := .finite 0 PyFloat.zero_bound

/-- A response of the worker. `retryAfter` is its `Retry-After` header. -/
structure Response where
  status : ℤ
  body : Except PyError Json
  retryAfter : Option PyStr := none

/-- `response.is_success` -/
def Response.isSuccess (response : Response) : Bool :=
  200 ≤ response.status && response.status ≤ 299

/-! ### The wait -/

/-- The field `retry_after_ms` of the body, or `None` where the `try` fails. -/
def retryAfterMs (response : Response) : Except PyError Json :=
  match (do (← response.body).get? "retry_after_ms") with
  | .ok value => .ok value
  | .error e =>
      if e.isValueError || e == .attributeError then .ok .null else .error e

/-- `retry_after_ms / 1000.0` of a number -/
def bodyWait (retryAfterMs : Json) : Except PyError (Option PyFloat) :=
  match retryAfterMs with
  | .bool b => .ok (some ((floatOfBool b).divNat 1000))
  | .int n => (floatOfInt n).map fun ms => some (ms.divNat 1000)
  | .float ms => .ok (some (ms.divNat 1000))
  | _ => .ok none

/-- The wait of the header, if it is a float. -/
def headerWait (response : Response) : Option PyFloat := response.retryAfter.bind floatStr

/-- `min(max(wait, 0.0), _RETRY_AFTER_CAP_S)` -/
def clampWait (wait : PyFloat) : PyFloat := (wait.max zeroS).min retryAfterCapS

/-- `_retry_after_seconds` -/
def retryAfterSeconds (response : Response) : Except PyError PyFloat := do
  match ← bodyWait (← retryAfterMs response) with
  | some wait => return clampWait wait
  -- The header is asked only if the body has no number.
  | none => return clampWait ((headerWait response).getD defaultRetryAfterS)

/-! ### The attempts -/

/-- The calls of `submit`. -/
inductive Op where
  | post (url : PyStr) (json : List (PyStr × Json)) (headers : List (PyStr × PyStr))
  | sleep (seconds : PyFloat)

/-- The answers to the calls. -/
def Op.Answer : Op → Type
  | .post _ _ _ => Except PyError Response
  | .sleep _ => Unit

/-- What `submit` calls. -/
abbrev calls : Interface := ⟨Op, Op.Answer⟩

/-- `submit`, or a part of it. -/
abbrev Action (α : Type) := Prog calls PyError α

/-- `EngineClient`, with the field `engine_base_url` of its settings. -/
structure Client where
  settings : Settings
  engineBaseUrl : PyStr

/-- `self._url` -/
def Client.url (client : Client) : PyStr :=
  rstripChr '/' client.engineBaseUrl ++ lit "/api/v1/chat/callback"

/-- `_headers` -/
def Client.headers (client : Client) : List (PyStr × PyStr) :=
  [(lit "Authorization", lit "Bearer " ++ client.settings.engineApiKey),
    (lit "Content-Type", lit "application/json")]

/-- The attempts from number `attempt` on, of which `left` are left. -/
def attempts (client : Client) (body : List (PyStr × Json)) : Nat → Nat → Action Bool
  | _, 0 => .pure false
  | attempt, left + 1 =>
      .call (.post client.url body client.headers) fun answer : Except PyError Response =>
        match answer with
        | .error e => if e = .httpError then .pure false else .raise e
        | .ok response =>
            if response.isSuccess then .pure true
            else if response.status = 429 then
              -- The hint is read in front of the check for the last attempt.
              (Prog.ofExcept (retryAfterSeconds response)).bind fun wait =>
                if maxAttempts ≤ attempt then .pure false
                else .call (.sleep wait) fun _ => attempts client body (attempt + 1) left
            else .pure false

/-- `submit` -/
def submit (client : Client) (message : InboundMessage) (audio : Option InboundAudio) :
    Action Bool := do
  let body ← Prog.ofExcept (buildChatRequest message client.settings audio)
  attempts client body 1 maxAttempts

end SignalGateway.Submit
