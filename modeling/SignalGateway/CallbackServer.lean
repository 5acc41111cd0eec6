import SignalGateway.Dedup
import SignalGateway.Dispatch

/-!
# `SignalGateway.CallbackServer`: the callback endpoint and its delivery tasks

The model of `callback_server.py`. `progressCallback` is the handler behind the body
parser, and `deliverAndMark` is the end of a background delivery. Between two `await`s the
event loop runs no other code, so each of the two is one step of a run.

A run is a list of `Event`s: requests arrive, and deliveries that were scheduled finish, in
any order. `step` also returns the `Record` of what the event did.

* `Answer` has one constructor for each branch of the handler, and `Answer.status` is its status.
* `answerComplete` reserves the key of a `complete` callback, unless the key was delivered within
  the TTL or is in flight.
* `Server` adds to the state of the app the deliveries under way and the number of the next request.
* `Outcome` is how `dispatch_callback` ends. Only a delivery that returns true marks its key.
-/

set_option autoImplicit false

namespace SignalGateway.CallbackServer

open Dedup Dispatch

/-- `_DEDUP_TTL_MS` -/
def dedupTtlMs : ℚ := 10 * 60 * 1000

/-- What `create_app` is given: the worker token, and whether there is a signal client. -/
structure Config where
  engineApiKey : PyStr
  hasSignalClient : Bool

/-- The part of `app.state` that requests change. -/
structure AppState where
  dedup : CompletedKeys
  inFlight : Finset PyStr

/-- A request: the `X-Engine-Token` header and the body. The body is `none` if
`request.json()` raises `ValueError`. -/
structure Request where
  token : Option PyStr
  body : Option Json

/-- What the handler answers. Each branch of the source is one constructor. -/
inductive Answer where
  | badToken
  | malformedJson
  | unrecognized
  | statusAcked
  | noSignalClient (payload : CallbackPayload)
  | dispatched (payload : CallbackPayload)
  | duplicate (payload : CallbackPayload)
  | accepted (payload : CallbackPayload)
deriving DecidableEq, Repr

/-- The HTTP status of an answer. -/
def Answer.status : Answer → Nat
  | .badToken => 401
  | .malformedJson | .unrecognized => 400
  | .noSignalClient _ => 503
  | .statusAcked | .dispatched _ | .duplicate _ | .accepted _ => 200

/-- The handler behind the type checks, for a `complete` payload. -/
def answerComplete (app : AppState) (payload : CallbackPayload) (now : ℚ) :
    Answer × AppState :=
  let (completed, dedup) := app.dedup.isCompleted payload.messageKey now
  if completed || payload.messageKey ∈ app.inFlight then
    (.duplicate payload, { app with dedup })
  else
    -- Reserve before scheduling.
    (.accepted payload, ⟨dedup, insert payload.messageKey app.inFlight⟩)

/-- `progress_callback`. An error is an exception that leaves the handler. -/
def progressCallback (cfg : Config) (app : AppState) (request : Request) (now : ℚ) :
    Except PyError (Answer × AppState) :=
  if request.token ≠ some cfg.engineApiKey then .ok (.badToken, app)
  else
    match request.body with
    | none => .ok (.malformedJson, app)
    | some body => do
        let some payload ← parseCallbackPayload body | return (.unrecognized, app)
        if payload.type = .status then return (.statusAcked, app)
        -- The other three types are delivered, so they need the client.
        if !cfg.hasSignalClient then return (.noSignalClient payload, app)
        if payload.type = .progress ∨ payload.type = .error then
          return (.dispatched payload, app)
        return answerComplete app payload now

/-- How `dispatch_callback` ended. -/
inductive Outcome where
  | returned (delivered : Bool)
  | raised
deriving DecidableEq, Repr

/-- `delivered` after the `try` of `_deliver_and_mark`. -/
def Outcome.delivered : Outcome → Bool
  | .returned delivered => delivered
  | .raised => false

/-- `_deliver_and_mark` once `dispatch_callback` has ended. -/
def deliverAndMark (app : AppState) (payload : CallbackPayload) (outcome : Outcome)
    (now : ℚ) : AppState :=
  let key := payload.messageKey
  let dedup := if outcome.delivered then app.dedup.markCompleted key now else app.dedup
  -- The `finally`: the key is free again, marked or not.
  ⟨dedup, app.inFlight.erase key⟩

/-! ### Runs -/

/-- A running `_deliver_and_mark`, with the number of the request that scheduled it. -/
structure Delivery where
  id : Nat
  payload : CallbackPayload
deriving DecidableEq, Repr

/-- The key a delivery is for. -/
abbrev Delivery.key (d : Delivery) : PyStr := d.payload.messageKey

/-- The server, its running deliveries and the time of the last event. Requests are numbered
upwards, and `nextId` is the least number that is still free. The tasks of `dispatched`
answers do not touch the server, so they are not listed. -/
structure Server where
  app : AppState
  running : List Delivery
  nextId : Nat
  clock : ℚ

/-- `create_app` at time `now`, with a fresh `CompletedKeys`. -/
def Server.create (ttl sweepInterval now : ℚ) : Server :=
  ⟨⟨.create ttl sweepInterval now, ∅⟩, [], 0, now⟩

/-- A request arrives, or the delivery of an accepted one ends. -/
inductive Event where
  | request (id : Nat) (request : Request) (now : ℚ)
  | finish (delivery : Delivery) (outcome : Outcome) (now : ℚ)

/-- What an event did. -/
inductive Record where
  | answered (id : Nat) (answer : Except PyError Answer)
  | finished (delivery : Delivery) (delivered : Bool) (now : ℚ)

/-- The delivery an answer starts. -/
def startedBy (id : Nat) : Answer → List Delivery
  | .accepted payload => [⟨id, payload⟩]
  | _ => []

/-- One event. An event that goes back in time, reuses a request number or finishes a
delivery that does not run is not possible. -/
def step (cfg : Config) (s : Server) : Event → Option (Server × Record)
  | .request id request now =>
      if s.nextId ≤ id ∧ s.clock ≤ now then
        match progressCallback cfg s.app request now with
        -- An exception ends the request, too.
        | .error e => some (⟨s.app, s.running, id + 1, now⟩, .answered id (.error e))
        | .ok (answer, app) =>
            some (⟨app, s.running ++ startedBy id answer, id + 1, now⟩,
              .answered id (.ok answer))
      else none
  | .finish delivery outcome now =>
      if delivery ∈ s.running ∧ s.clock ≤ now then
        some (⟨deliverAndMark s.app delivery.payload outcome now,
            s.running.erase delivery, s.nextId, now⟩,
          .finished delivery outcome.delivered now)
      else none

/-- A sequence of events, with the record of each. -/
def run (cfg : Config) (s : Server) : List Event → Option (Server × List Record)
  | [] => some (s, [])
  | e :: es => do
      let (s, record) ← step cfg s e
      let (s, log) ← run cfg s es
      some (s, record :: log)

end SignalGateway.CallbackServer
