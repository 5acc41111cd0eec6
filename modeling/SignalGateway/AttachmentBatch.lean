import SignalGateway.RateLimit
import SignalGateway.Rpc

/-!
# `SignalGateway.AttachmentBatch`: paced attachment sends

A `System` runs any number of calls of `_send_attachment_batch` over one scheduler. A task gives
up control only while it sleeps or has its RPC in flight, so what lies between two such points is
one step.

* `Task`: the rest of a call, and what it waits for.
* `settle`: what a task does up to the next point where it can give up control.
* `System.step`: one event. The response that ends an RPC is part of the event, and any response
  is possible: a result, a rate limit with any hint, or another failure.

A task that raises stays at its `raise`, and nothing more happens to it.
-/

set_option autoImplicit false

namespace SignalGateway.AttachmentBatch

open RateLimit Rpc

/-! ### Tasks -/

/-- What a task waits for. `slept` is what it has slept in its call of `acquire`. -/
inductive Status where
  | ready (slept : ℚ)
  | asleep (deadline slept : ℚ)
  | inFlight
deriving DecidableEq, Repr

/-- A task: the rest of its program, and its status. -/
structure Task where
  program : Action Bool
  status : Status

/-- The tasks over one scheduler. `busyUntil` is the latest time so far at which an RPC was in
flight. -/
structure System where
  scheduler : Scheduler
  tasks : List Task
  clock : ℚ
  busyUntil : ℚ

/-- A fresh scheduler without tasks at time `now`. -/
def System.create (capacity defaultRetryAfter now : ℚ) : System :=
  ⟨.create capacity defaultRetryAfter now, [], now, now⟩

/-- Whether the RPC of some task is in flight. -/
def System.inFlight (s : System) : Bool := s.tasks.any fun task => task.status == .inFlight

/-- Time passes up to `now`. -/
def System.tick (s : System) (now : ℚ) : System :=
  { s with clock := now, busyUntil := if s.inFlight ∧ s.clock < now then now else s.busyUntil }

/-- What a task has slept, if it can go on. -/
def Status.awake (now : ℚ) : Status → Option ℚ
  | .ready slept => some slept
  | .asleep deadline slept => if deadline ≤ now then some slept else none
  | .inFlight => none

/-- Run a program up to the next point where it can give up control. -/
def settle (now : ℚ) (scheduler : Scheduler) : Action Bool → Scheduler × Action Bool
  | .call .monotonic next => settle now scheduler (next now)
  | .call (.reportRpcDuration rpcDuration n) next =>
      settle now (scheduler.reportRpcDuration rpcDuration n now) (next ())
  | .call (.feedback retryAfter n) next =>
      settle now (scheduler.feedback retryAfter n now) (next ())
  -- A sleep, an `acquire` and a POST can give up control. An end has nothing left to do.
  | program => (scheduler, program)

/-- The status of a task that has just settled. -/
def statusOf (now : ℚ) : Action Bool → Status
  | .call (.sleep seconds) _ => .asleep (now + seconds) 0
  | _ => .ready 0

/-- A task goes on with `program`. -/
def System.resume (s : System) (i : Nat) (program : Action Bool) : System :=
  let (scheduler, program) := settle s.clock s.scheduler program
  { s with scheduler, tasks := s.tasks.set i ⟨program, statusOf s.clock program⟩ }

/-- A step of a call of `acquire` that has slept for `slept`. -/
def System.acquireStep (s : System) (i : Nat) (n : ℤ)
    (next : Except SendError ℚ → Action Bool) (slept : ℚ) : System :=
  -- The checks in front of the loop come out the same in each pass.
  if n ≤ 0 then s.resume i (next (.ok 0))
  else if s.scheduler.capacity < n then s.resume i (next (.error (.scheduler ⟨n⟩)))
  else
    match s.scheduler.acquirePass n s.clock with
    | (.granted, scheduler) => { s with scheduler }.resume i (next (.ok slept))
    | (.sleep wait, scheduler) =>
        { s with
          scheduler
          tasks := s.tasks.set i
            ⟨.call (.acquire n) next, .asleep (s.clock + wait) (slept + wait)⟩ }
    | (.raised e, scheduler) => { s with scheduler }.resume i (next (.error (.other e)))

/-- What happens to a task. -/
inductive Event where
  /-- A task starts. -/
  | start (params : List (PyStr × Json)) (n : ℤ)
  /-- A task runs a pass of `acquire`. -/
  | check (i : Nat)
  | rpcStart (i : Nat)
  | rpcEnd (i : Nat) (answer : Except PyError Response)
  /-- A backoff ends. -/
  | wake (i : Nat)

section
variable (repr : Json → Except PyError PyStr)
  (listGt : List Json → List Json → Except PyError Bool)

/-- The task `i`, at a point of its program. -/
def System.step (s : System) (event : Event) (now : ℚ) : Option System :=
  if now < s.clock then none
  else
    let s := s.tick now
    match event with
    | .start params n =>
        some { s with tasks := s.tasks ++ [⟨sendAttachmentBatch repr listGt params n, .ready 0⟩] }
    -- A task at its token check, when its wait is over.
    | .check i =>
        match s.tasks[i]? with
        | some ⟨.call (.acquire n) next, status⟩ =>
            (status.awake now).map fun slept => s.acquireStep i n next slept
        | _ => none
    | .rpcStart i =>
        match s.tasks[i]? with
        | some ⟨.call (.post method params timeout) next, .ready _⟩ =>
            some { s with
              tasks := s.tasks.set i ⟨.call (.post method params timeout) next, .inFlight⟩ }
        | _ => none
    -- The task runs on in the step that ends its RPC.
    | .rpcEnd i answer =>
        match s.tasks[i]? with
        | some ⟨.call (.post _ _ _) next, .inFlight⟩ => some (s.resume i (next answer))
        | _ => none
    -- The pause before a retry.
    | .wake i =>
        match s.tasks[i]? with
        | some ⟨.call (.sleep _) next, status⟩ =>
            (status.awake now).map fun _ => s.resume i (next ())
        | _ => none

/-- A sequence of timed events, with the system after each. -/
def System.run (s : System) : List (Event × ℚ) → Option (List System)
  | [] => some []
  | (event, now) :: events => do
      let s ← s.step repr listGt event now
      let states ← s.run events
      some (s :: states)

end

end SignalGateway.AttachmentBatch
