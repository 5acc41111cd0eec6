import SignalGateway.Py.Float
import SignalGateway.Py.Str

/-!
# `SignalGateway.RateLimit`: the attachment scheduler

The model of `SignalAttachmentScheduler` in `signal_rate_limit.py`. Times, tokens and rates are
exact rationals. The source reads `time.monotonic()` once in each operation. Here the time is an
argument.

The hint of a rate limit is a float, because `json.loads` reads `Infinity` and `1e400` as one.
After an infinite hint the refill rate is `0.0`. Then `estimate_wait` and `acquire` raise
`ZeroDivisionError` unless the tokens are there.

No operation awaits while it holds the lock, so each of them is one step of a run, and the
lock is never contended. Only `acquire` has several steps: a pass of its loop that finds too
few tokens puts the task to sleep, and the next pass is a step of its own.

* `Scheduler`: the state of the scheduler, with its operations under the source's names.
* `System`: the scheduler and the calls of `acquire` that sleep.
* `step`: one call, or the end of one sleep. `run` is a sequence of them.
-/

set_option autoImplicit false

namespace SignalGateway.RateLimit

/-- `SIGNAL_RATE_LIMIT_BUCKET_CAPACITY` -/
def bucketCapacity : ℚ := 50

/-- `SIGNAL_RATE_LIMIT_DEFAULT_RETRY_AFTER` -/
def defaultRetryAfterSeconds : ℚ := 4

/-- `SignalAttachmentScheduler` -/
structure Scheduler where
  capacity : ℚ
  tokens : ℚ
  refillRate : ℚ
  lastRefill : ℚ
deriving DecidableEq, Repr

namespace Scheduler

/-- `SignalAttachmentScheduler.__init__` -/
def create (capacity defaultRetryAfter now : ℚ) : Scheduler :=
  ⟨capacity, capacity, 1 / defaultRetryAfter, now⟩

/-- The tokens at `now`. `_refill`, `estimate_wait` and `state` all compute them so. -/
def projected (s : Scheduler) (now : ℚ) : ℚ :=
  -- A full bucket gains nothing.
  let elapsed := now - s.lastRefill
  if 0 < elapsed ∧ s.tokens < s.capacity then
    min s.capacity (s.tokens + elapsed * s.refillRate)
  else s.tokens

/-- `_refill` -/
def refill (s : Scheduler) (now : ℚ) : Scheduler :=
  { s with tokens := s.projected now, lastRefill := now }

/-- `deficit / self.refill_rate` -/
def waitFor (s : Scheduler) (deficit : ℚ) : Except PyError ℚ :=
  if s.refillRate = 0 then .error .zeroDivisionError else .ok (deficit / s.refillRate)

/-- `estimate_wait` -/
def estimateWait (s : Scheduler) (n : ℤ) (now : ℚ) : Except PyError ℚ :=
  let deficit := n - s.projected now
  if deficit ≤ 0 then .ok 0 else s.waitFor deficit

/-- How a pass of the loop of `acquire` ends. -/
inductive Pass where
  | granted
  | sleep (wait : ℚ)
  | raised (e : PyError)
deriving DecidableEq, Repr

/-- A pass of the loop of `acquire`, up to the sleep. -/
def acquirePass (s : Scheduler) (n : ℤ) (now : ℚ) : Pass × Scheduler :=
  let s := s.refill now
  if n ≤ s.tokens then (.granted, { s with tokens := s.tokens - n })
  else
    match s.waitFor (n - s.tokens) with
    | .ok wait => (.sleep wait, s)
    -- The rate is zero behind an infinite hint.
    | .error e => (.raised e, s)

/-- `report_rpc_duration`. The duration is only logged. -/
def reportRpcDuration (s : Scheduler) (_rpcDuration : ℚ) (nAttachments : ℤ) (now : ℚ) :
    Scheduler :=
  if nAttachments ≤ 0 then s else { s with lastRefill := now }

/-- `1.0 / float(retry_after)`, if `retry_after > 0`. -/
def newRate : PyFloat → Option ℚ
  | .finite seconds _ => if 0 < seconds then some (1 / seconds) else none
  | .inf => some 0
  -- A hint that is not positive is ignored.
  | .negInf | .nan => none

/-- `feedback`. The number of attempted attachments is not used. -/
def feedback (s : Scheduler) (retryAfter : Option PyFloat) (_nAttempted : ℤ) (now : ℚ) :
    Scheduler :=
  let refillRate := (retryAfter.bind newRate).getD s.refillRate
  { s with refillRate, tokens := 0, lastRefill := now }

/-- `round(q, digits)`: to the nearest, and to even between two. -/
def pyRound (q : ℚ) (digits : Nat) : ℚ :=
  let scaled := q * 10 ^ digits
  let up := scaled - scaled.floor
  let rounded :=
    if up < 1 / 2 ∨ (up = 1 / 2 ∧ scaled.floor % 2 = 0) then scaled.floor
    else scaled.floor + 1
  rounded / 10 ^ digits

/-- The dictionary `state` returns. -/
structure State where
  tokens : ℚ
  capacity : ℤ
  refillRate : ℚ
  /-- `none` is `float("inf")`. -/
  refillSecondsPerToken : Option ℚ
deriving DecidableEq, Repr

/-- `state` -/
def state (s : Scheduler) (now : ℚ) : State where
  tokens := pyRound (s.projected now) 1
  capacity := if 0 ≤ s.capacity then s.capacity.floor else s.capacity.ceil
  refillRate := pyRound s.refillRate 4
  refillSecondsPerToken :=
    if 0 < s.refillRate then some (pyRound (1 / s.refillRate) 1) else none

end Scheduler

/-! ### Runs -/

/-- A call of `acquire` that sleeps: until which deadline, for how long, and what it had slept
before. -/
structure Waiter where
  id : Nat
  n : ℤ
  deadline : ℚ
  wait : ℚ
  totalSlept : ℚ
deriving DecidableEq, Repr

/-- The scheduler, the sleeping calls, and the time of the last event. Calls of `acquire`
are numbered upwards, and `nextId` is the least number that is still free. -/
structure System where
  scheduler : Scheduler
  waiting : List Waiter
  nextId : Nat
  clock : ℚ

/-- A fresh scheduler at time `now`. -/
def System.create (capacity defaultRetryAfter now : ℚ) : System :=
  ⟨.create capacity defaultRetryAfter now, [], 0, now⟩

/-- A call, or the end of a sleep. -/
inductive Event where
  | acquire (id : Nat) (n : ℤ)
  | wake (waiter : Waiter)
  | feedback (retryAfter : Option PyFloat) (nAttempted : ℤ)
  | reportRpcDuration (rpcDuration : ℚ) (nAttachments : ℤ)
  | estimateWait (n : ℤ)
  | state
deriving DecidableEq, Repr

/-- What an event did. -/
inductive Record where
  | granted (id : Nat) (n : ℤ) (totalSlept : ℚ)
  | sleeping (waiter : Waiter)
  | schedulerError (id : Nat) (n : ℤ)
  | raised (id : Nat) (n : ℤ) (e : PyError)
  | returned
  | estimated (wait : Except PyError ℚ)
  | reported (state : Scheduler.State)
deriving DecidableEq, Repr

/-- A pass of the loop of `acquire` for call `id`, which has slept for `totalSlept`. -/
def passStep (s : System) (id : Nat) (n : ℤ) (totalSlept now : ℚ) : System × Record :=
  match s.scheduler.acquirePass n now with
  | (.granted, scheduler) => ({ s with scheduler }, .granted id n totalSlept)
  | (.sleep wait, scheduler) =>
      let waiter : Waiter := ⟨id, n, now + wait, wait, totalSlept⟩
      ({ s with scheduler, waiting := s.waiting ++ [waiter] }, .sleeping waiter)
  | (.raised e, scheduler) => ({ s with scheduler }, .raised id n e)

/-- One event at time `now`. An event that goes back in time, reuses a number, or ends a
sleep that does not run or ends later, is not possible. A sleep can end late. -/
def step (s : System) (event : Event) (now : ℚ) : Option (System × Record) :=
  if now < s.clock then none
  else
    let s := { s with clock := now }
    match event with
    | .acquire id n =>
        if id < s.nextId then none
        else
          -- The two checks of `acquire` in front of its loop.
          let s := { s with nextId := id + 1 }
          if n ≤ 0 then some (s, .granted id n 0)
          else if s.scheduler.capacity < n then some (s, .schedulerError id n)
          else some (passStep s id n 0 now)
    | .wake waiter =>
        -- A sleeper may wake late, never early.
        if waiter ∈ s.waiting ∧ waiter.deadline ≤ now then
          some (passStep { s with waiting := s.waiting.erase waiter } waiter.id waiter.n
            (waiter.totalSlept + waiter.wait) now)
        else none
    | .feedback retryAfter nAttempted =>
        some ({ s with scheduler := s.scheduler.feedback retryAfter nAttempted now }, .returned)
    | .reportRpcDuration rpcDuration nAttachments =>
        some ({ s with
          scheduler := s.scheduler.reportRpcDuration rpcDuration nAttachments now }, .returned)
    | .estimateWait n => some (s, .estimated (s.scheduler.estimateWait n now))
    | .state => some (s, .reported (s.scheduler.state now))

/-- The system after an event, and what the event did. -/
abbrev Snapshot := System × Record

/-- A sequence of timed events, with the snapshot after each. -/
def run (s : System) : List (Event × ℚ) → Option (List Snapshot)
  | [] => some []
  | (event, now) :: events => do
      let (s, record) ← step s event now
      let trace ← run s events
      some ((s, record) :: trace)

end SignalGateway.RateLimit
