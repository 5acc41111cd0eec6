import SignalGateway.Lib.Machine
import SignalGateway.Lib.Pool
import SignalGateway.CallbackServer
import SignalGateway.Outbound

/-!
# `SignalGateway.BackgroundTasks`: the callback endpoint with its deliveries under way

`CallbackServer` takes the outcome of a delivery as it comes. Here the deliveries run: each
accepted or dispatched callback has a task that makes the calls of `dispatch_callback`, and the
outcome is how this program ends. The event loop may switch between the tasks and the requests at
every call, and any answer to a call is possible.

The end of a task is an event of its own. The event loop does not switch there, so the model has
more runs than the program.

* `Job` says what a task is for, and `delivery` is its program.
* `System` is the server with a pool of tasks (`SignalGateway.Lib.Pool`).
* `schedule` starts the task of a callback that the server has accepted or dispatched.
* `System.step` is a request, a call of a task, or the end of a task. The end of a task is the
  outcome that `CallbackServer.step` gets.
-/

set_option autoImplicit false

namespace SignalGateway.BackgroundTasks

open Dispatch CallbackServer

/-- What a task is for: the payload, and whether it is `_deliver_and_mark` or only
`dispatch_callback`. -/
structure Job where
  payload : CallbackPayload
  marks : Bool
deriving DecidableEq, Repr

/-- The task that an answer schedules. -/
def scheduledBy : Record → Option (Nat × Job)
  | .answered id (.ok (.accepted payload)) => some (id, ⟨payload, true⟩)
  | .answered id (.ok (.dispatched payload)) => some (id, ⟨payload, false⟩)
  | _ => none

/-- The end of `dispatch_callback`. -/
def outcome : Except PyError Bool → Outcome
  | .ok delivered => .returned delivered
  | .error _ => .raised

/-- The server and its tasks. -/
structure System where
  server : Server
  pool : Pool Outbound.calls PyError Bool Job
  records : List Record

/-- `create_app` at time `now`. -/
def System.create (ttl sweepInterval now : ℚ) : System :=
  ⟨.create ttl sweepInterval now, .empty, []⟩

/-- A request arrives, a call of a task is answered, or a task ends. -/
inductive Event where
  | request (id : Nat) (request : Request) (now : ℚ)
  | answered (id : Nat) (answer : (op : Outbound.Op) → op.Answer)
  | finish (id : Nat) (now : ℚ)

section
variable (program : Nat → Job → Prog Outbound.calls PyError Bool) (cfg : Config)

/-- The tasks after a record. -/
def schedule (pool : Pool Outbound.calls PyError Bool Job) (record : Record) :
    Pool Outbound.calls PyError Bool Job :=
  match scheduledBy record with
  | some (id, job) => pool.spawn id job (program id job)
  | none => pool

/-- One event. -/
def System.step (s : System) : Event → Option System
  | .request id request now => do
      let (server, record) ← CallbackServer.step cfg s.server (.request id request now)
      some ⟨server, schedule program s.pool record, s.records ++ [record]⟩
  | .answered id answer => do
      let pool ← s.pool.call id answer
      some { s with pool }
  | .finish id now => do
      let (pool, job, r) ← s.pool.finish id
      -- Only `_deliver_and_mark` goes on behind the delivery.
      if job.marks then
        let (server, record) ← CallbackServer.step cfg s.server
          (.finish ⟨id, job.payload⟩ (outcome r) now)
        some ⟨server, pool, s.records ++ [record]⟩
      else some { s with pool }

end

section
variable (repr : Json → Except PyError PyStr)
  (listGt : List Json → List Json → Except PyError Bool) (isWord : Nat → Bool)
  (netlocOk : PyStr → Bool) (settings : Settings) (workspace : Nat → PyStr)

/-- The program of a task. Each task has a workspace of its own. -/
def delivery (id : Nat) (job : Job) : Prog Outbound.calls PyError Bool :=
  Outbound.deliver repr listGt isWord netlocOk settings (workspace id) job.payload

/-- A sequence of events. -/
def System.run (cfg : Config) (s : System) (events : List Event) : Option System :=
  Machine.run (System.step (delivery repr listGt isWord netlocOk settings workspace) cfg) s events

end

end SignalGateway.BackgroundTasks
