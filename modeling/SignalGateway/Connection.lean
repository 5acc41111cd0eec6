import SignalGateway.Lib.Machine
import SignalGateway.Listener

/-!
# `SignalGateway.Connection`: the event stream and its health monitor

The model of `_consume_forever`, `_stream_once`, `_health_monitor`, `_daemon_reachable` and
`_force_reconnect` of `signal_listener.py`. The consumer and the monitor are two tasks over one
`_Listener`. A task gives up control only where it awaits, so what lies between two such points
is one step.

The daemon, the transport and the clock are the events: a connection can fail at any time, a
stream can end at any time, and a probe can take any time. The consumer runs a program for each
line, which the model takes as a parameter, and any answer to its calls is possible. Streams
are numbered in the order in which they connect. Times are exact rationals.
-/

set_option autoImplicit false

namespace SignalGateway.Connection

open Listener

/-- `SSE_RETRY_DELAY_INITIAL` -/
def sseRetryDelayInitial : ℚ := 2

/-- `SSE_RETRY_DELAY_MAX` -/
def sseRetryDelayMax : ℚ := 5

/-- `SSE_RETRY_JITTER` -/
def sseRetryJitter : ℚ := 1 / 5

/-- `HEALTH_CHECK_INTERVAL` -/
def healthCheckInterval : ℚ := 5

/-- `HEALTH_CHECK_STALE_THRESHOLD` -/
def healthCheckStaleThreshold : ℚ := 30

/-! ### The state -/

/-- The fields of `_Listener` that change. -/
structure ListenerState where
  lastActivity : ℚ
  /-- The number of the stream whose response is held. -/
  response : Option Nat
  backoff : ℚ
  wakeup : Bool

/-- Where the consumer awaits. -/
inductive Consumer (I : Interface) where
  | connecting
  | streaming
  | handling (rest : Prog I PyError Unit)
  /-- The response is being closed. -/
  | closing
  /-- The backoff, which ends at the deadline. -/
  | waiting (deadline : ℚ)

/-- Where the monitor awaits. -/
inductive Monitor where
  | sleeping (wakeAt : ℚ)
  /-- The probe between two streams. -/
  | wakeProbe (since : ℚ)
  /-- The probe while a stream is quiet. -/
  | idleProbe (since : ℚ)
  | closing (stream : Nat) (since : ℚ)

/-- The listener and its two tasks. -/
structure System (I : Interface) where
  listener : ListenerState
  consumer : Consumer I
  monitor : Monitor
  /-- The number of streams so far. -/
  streams : Nat
  /-- The streams that `_force_reconnect` has closed, or is closing. -/
  forced : List Nat
  /-- The calls of the programs of the lines. -/
  log : List I.Event
  clock : ℚ

/-- `_Listener.run` at time `now`. -/
def System.start (I : Interface) (now : ℚ) : System I where
  listener := ⟨now, none, sseRetryDelayInitial, false⟩
  consumer := .connecting
  monitor := .sleeping (now + healthCheckInterval)
  streams := 0
  forced := []
  log := []
  clock := now

/-! ### The consumer -/

/-- What the consumer awaited has happened. -/
inductive ConsumerEvent (I : Interface) where
  /-- There is no response. `random` is what `random.random()` returns next. -/
  | connectFailed (random : ℚ)
  /-- The status line of a response. -/
  | responded (status : ℤ)
  | line (line : Line)
  /-- The stream ends, or reading it raises. -/
  | streamEnded
  /-- The call of the program is answered. -/
  | answered (answer : (op : I.Op) → I.Answer op)
  /-- The response is closed. -/
  | closed (random : ℚ)
  /-- The wait ends because `_wakeup` is set. -/
  | woken
  | timedOut

variable {I : Interface}

/-- The end of a connection: the backoff begins. -/
def System.backOff (s : System I) (random : ℚ) : System I :=
  let backoff := s.listener.backoff
  let delay := backoff + backoff * sseRetryJitter * random
  { s with
    listener := { s.listener with wakeup := false }
    consumer := .waiting (s.clock + delay) }

/-- The end of the backoff. -/
def System.retry (s : System I) : System I :=
  { s with
    listener := { s.listener with backoff := min (s.listener.backoff * 2) sseRetryDelayMax }
    consumer := .connecting }

/-- A healthy connect. -/
def System.connect (s : System I) : System I :=
  -- A healthy connect resets the backoff.
  { s with
    listener := ⟨s.clock, some s.streams, sseRetryDelayInitial, s.listener.wakeup⟩
    consumer := .streaming
    streams := s.streams + 1 }

/-- The `finally` of the stream. -/
def System.leave (s : System I) : System I :=
  { s with listener := { s.listener with response := none }, consumer := .closing }

/-- The consumer goes on with the program of a line. -/
def System.goOn (s : System I) : Prog I PyError Unit → System I
  | .pure _ => { s with consumer := .streaming }
  | .raise _ => s.leave
  | .call op next => { s with consumer := .handling (.call op next) }

/-- A step of the consumer. -/
def System.consume (program : Line → Prog I PyError Unit) (s : System I) :
    ConsumerEvent I → Option (System I)
  | .connectFailed random =>
      match s.consumer with
      | .connecting => if 0 ≤ random ∧ random < 1 then some (s.backOff random) else none
      | _ => none
  | .responded status =>
      match s.consumer with
      | .connecting =>
          -- An error status raises inside the `async with`.
          if 200 ≤ status ∧ status ≤ 299 then some s.connect
          else some { s with consumer := .closing }
      | _ => none
  | .line line =>
      match s.consumer with
      | .streaming =>
          -- Every line is activity, blank ones and comments included.
          let s := { s with listener := { s.listener with lastActivity := s.clock } }
          some (s.goOn (program line))
      | _ => none
  | .streamEnded =>
      match s.consumer with
      | .streaming => some s.leave
      | _ => none
  | .answered answer =>
      match s.consumer with
      | .handling (.call op next) =>
          let call : I.Event := ⟨op, answer op⟩
          some ({ s with log := s.log ++ [call] }.goOn (next (answer op)))
      | _ => none
  | .closed random =>
      match s.consumer with
      -- The backoff begins behind the `async with`.
      | .closing => if 0 ≤ random ∧ random < 1 then some (s.backOff random) else none
      | _ => none
  | .woken =>
      match s.consumer with
      | .waiting _ => if s.listener.wakeup then some s.retry else none
      | _ => none
  | .timedOut =>
      match s.consumer with
      | .waiting deadline => if deadline ≤ s.clock then some s.retry else none
      | _ => none

/-! ### The monitor -/

/-- What the monitor awaited has happened. -/
inductive MonitorEvent where
  | woke
  /-- The end of a probe between two streams. -/
  | wakeProbed (reachable : Bool)
  /-- The end of a probe while a stream was quiet. -/
  | idleProbed (reachable : Bool)
  | forceClosed

/-- The monitor goes to sleep. -/
def System.sleep (s : System I) : System I :=
  { s with monitor := .sleeping (s.clock + healthCheckInterval) }

/-- The checks behind the sleep. -/
def System.check (s : System I) : System I :=
  if s.listener.response.isNone then { s with monitor := .wakeProbe s.clock }
  else if s.clock - s.listener.lastActivity < healthCheckStaleThreshold then s.sleep
  else { s with monitor := .idleProbe s.clock }

/-- `_force_reconnect` -/
def System.forceReconnect (s : System I) : System I :=
  match s.listener.response with
  | none => s.sleep
  | some stream =>
      { s with monitor := .closing stream s.clock, forced := s.forced ++ [stream] }

/-- A step of the monitor. -/
def System.watch (s : System I) : MonitorEvent → Option (System I)
  | .woke =>
      match s.monitor with
      | .sleeping wakeAt => if wakeAt ≤ s.clock then some s.check else none
      | _ => none
  | .wakeProbed reachable =>
      match s.monitor with
      | .wakeProbe _ =>
          let wakeup := reachable || s.listener.wakeup
          some { s with listener := { s.listener with wakeup } }.sleep
      | _ => none
  | .idleProbed reachable =>
      match s.monitor with
      | .idleProbe _ =>
          if reachable then
            -- Quiet, but alive.
            some { s with listener := { s.listener with lastActivity := s.clock } }.sleep
          else some s.forceReconnect
      | _ => none
  | .forceClosed =>
      match s.monitor with
      | .closing _ _ => some s.sleep
      | _ => none

/-! ### Runs -/

/-- A step of one of the tasks. -/
inductive Event (I : Interface) where
  | consumer (event : ConsumerEvent I)
  | monitor (event : MonitorEvent)

/-- An event and its time. -/
abbrev Timed (I : Interface) := Event I × ℚ

/-- One event. An event that goes back in time, or that its task does not await, is not
possible. -/
def System.step (program : Line → Prog I PyError Unit) (s : System I) :
    Timed I → Option (System I)
  | (event, now) =>
      if now < s.clock then none
      else
        let s := { s with clock := now }
        match event with
        | .consumer event => s.consume program event
        | .monitor event => s.watch event

/-- A sequence of events. -/
abbrev System.run (program : Line → Prog I PyError Unit) (s : System I) (events : List (Timed I)) :
    Option (System I) := Machine.run (System.step program) s events

end SignalGateway.Connection
