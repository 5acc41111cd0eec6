import SignalGateway.Connection
import SignalGateway.Proofs.Listener

/-!
# `SignalGateway.Proofs.Connection`: reconnects, wake-ups and forced closes

`Consumed` and `Watched` say what one step of a task can do, with one constructor for each
branch. The frame lemmas behind them say what a task leaves alone: the monitor never touches the
consumer, the backoff or the response, and the consumer never touches the monitor.

`backoff_law` gives the backoff in every run. `woken_iff` says when a wait can end early,
`forced_close` which streams the monitor closes, and `silence_bounded` how long a live stream
can be quiet if the monitor runs on time.

How the four laws are proved:

* `backoff_law`: `backoff_step` ties the backoff to the number of retries since the last healthy
  connect, and `backoff_run` carries it along a run. The wait itself begins at one event, found
  with `Machine.run_since`.
* `woken_iff`: the wake flag is set by a probe between two streams and cleared when a wait begins.
  So it is set at the end exactly if such a probe was answered during this wait.
* `forced_close`: `Streams` says which numbers the streams have, and `History` where each of them
  has its last sign of life. A stream is closed by force only behind a probe that failed, and the
  probe was begun because the stream was quiet.
* `silence_bounded`: a run is on time if every event of the monitor comes no later than it is due
  (`onTime`). Then the monitor is `Punctual` with respect to the last sign of life, as long as the
  stream is live and not closed by force (`Guarded`).
-/

set_option autoImplicit false

namespace SignalGateway.Proofs.Connection

open SignalGateway.Connection SignalGateway.Listener

section
variable {I : Interface}

/-! ### What one step does -/

/-- What a step of the consumer can do, at the time of the step. -/
inductive Consumed (program : Line → Prog I PyError Unit) (s : System I) :
    ConsumerEvent I → System I → Prop where
  | connectFailed {random : ℚ} (h : s.consumer = .connecting) (hr : 0 ≤ random ∧ random < 1) :
      Consumed program s (.connectFailed random) (s.backOff random)
  | connected {status : ℤ} (h : s.consumer = .connecting) (hs : 200 ≤ status ∧ status ≤ 299) :
      Consumed program s (.responded status) s.connect
  | refused {status : ℤ} (h : s.consumer = .connecting) (hs : ¬ (200 ≤ status ∧ status ≤ 299)) :
      Consumed program s (.responded status) { s with consumer := .closing }
  | line {line : Line} (h : s.consumer = .streaming) :
      Consumed program s (.line line)
        ({ s with listener := { s.listener with lastActivity := s.clock } }.goOn (program line))
  | streamEnded (h : s.consumer = .streaming) : Consumed program s .streamEnded s.leave
  | answered {answer : (op : I.Op) → I.Answer op} {op : I.Op}
      {next : I.Answer op → Prog I PyError Unit} (h : s.consumer = .handling (.call op next)) :
      Consumed program s (.answered answer)
        (({ s with log := s.log ++ [⟨op, answer op⟩] } : System I).goOn (next (answer op)))
  | closed {random : ℚ} (h : s.consumer = .closing) (hr : 0 ≤ random ∧ random < 1) :
      Consumed program s (.closed random) (s.backOff random)
  | woken {deadline : ℚ} (h : s.consumer = .waiting deadline) (hw : s.listener.wakeup = true) :
      Consumed program s .woken s.retry
  | timedOut {deadline : ℚ} (h : s.consumer = .waiting deadline) (hd : deadline ≤ s.clock) :
      Consumed program s .timedOut s.retry

/-- What a step of the monitor can do, at the time of the step. -/
inductive Watched (s : System I) : MonitorEvent → System I → Prop where
  | betweenStreams {wakeAt : ℚ} (h : s.monitor = .sleeping wakeAt) (hw : wakeAt ≤ s.clock)
      (hresponse : s.listener.response = none) :
      Watched s .woke { s with monitor := .wakeProbe s.clock }
  | active {wakeAt : ℚ} {stream : Nat} (h : s.monitor = .sleeping wakeAt) (hw : wakeAt ≤ s.clock)
      (hresponse : s.listener.response = some stream)
      (hidle : s.clock - s.listener.lastActivity < healthCheckStaleThreshold) :
      Watched s .woke s.sleep
  | quiet {wakeAt : ℚ} {stream : Nat} (h : s.monitor = .sleeping wakeAt) (hw : wakeAt ≤ s.clock)
      (hresponse : s.listener.response = some stream)
      (hidle : healthCheckStaleThreshold ≤ s.clock - s.listener.lastActivity) :
      Watched s .woke { s with monitor := .idleProbe s.clock }
  | wakeProbed {since : ℚ} {reachable : Bool} (h : s.monitor = .wakeProbe since) :
      Watched s (.wakeProbed reachable)
        ({ s with listener := { s.listener with wakeup := reachable || s.listener.wakeup } }).sleep
  | alive {since : ℚ} (h : s.monitor = .idleProbe since) :
      Watched s (.idleProbed true)
        ({ s with listener := { s.listener with lastActivity := s.clock } }).sleep
  | gone {since : ℚ} (h : s.monitor = .idleProbe since) (hresponse : s.listener.response = none) :
      Watched s (.idleProbed false) s.sleep
  | forced {since : ℚ} {stream : Nat} (h : s.monitor = .idleProbe since)
      (hresponse : s.listener.response = some stream) :
      Watched s (.idleProbed false)
        { s with monitor := .closing stream s.clock, forced := s.forced ++ [stream] }
  | forceClosed {stream : Nat} {since : ℚ} (h : s.monitor = .closing stream since) :
      Watched s .forceClosed s.sleep

variable {program : Line → Prog I PyError Unit} {s s' : System I}

/-- What the consumer can do. -/
theorem consume_cases {event : ConsumerEvent I} (h : s.consume program event = some s') :
    Consumed program s event s' := by
  cases event with
  | connectFailed random =>
    simp only [System.consume] at h
    split at h
    · next hc =>
      split at h <;> cases h
      next hr => exact .connectFailed hc hr
    · cases h
  | responded status =>
    simp only [System.consume] at h
    split at h
    · next hc =>
      split at h <;> cases h
      · next hs => exact .connected hc hs
      · next hs => exact .refused hc hs
    · cases h
  | line line =>
    simp only [System.consume] at h
    split at h <;> cases h
    next hc => exact .line hc
  | streamEnded =>
    simp only [System.consume] at h
    split at h <;> cases h
    next hc => exact .streamEnded hc
  | answered answer =>
    simp only [System.consume] at h
    split at h <;> cases h
    next hc => exact .answered hc
  | closed random =>
    simp only [System.consume] at h
    split at h
    · next hc =>
      split at h <;> cases h
      next hr => exact .closed hc hr
    · cases h
  | woken =>
    simp only [System.consume] at h
    split at h
    · next hc =>
      split at h <;> cases h
      next hw => exact .woken hc hw
    · cases h
  | timedOut =>
    simp only [System.consume] at h
    split at h
    · next hc =>
      split at h <;> cases h
      next hd => exact .timedOut hc hd
    · cases h

/-- What the monitor can do. -/
theorem watch_cases {event : MonitorEvent} (h : s.watch event = some s') :
    Watched s event s' := by
  cases event with
  | woke =>
    simp only [System.watch] at h
    split at h
    · next wakeAt hm =>
      split at h <;> cases h
      next hw =>
      unfold System.check
      cases hresponse : s.listener.response with
      | none => exact .betweenStreams hm hw hresponse
      | some stream =>
        rw [Option.isNone_some, if_neg (by decide)]
        split
        · next hidle => exact .active hm hw hresponse hidle
        · next hidle => exact .quiet hm hw hresponse (not_lt.mp hidle)
    · cases h
  | wakeProbed reachable =>
    simp only [System.watch] at h
    split at h <;> cases h
    next since hm => exact .wakeProbed hm
  | idleProbed reachable =>
    simp only [System.watch] at h
    split at h
    · next since hm =>
      cases reachable with
      | true =>
        cases h
        exact .alive hm
      | false =>
        cases h
        unfold System.forceReconnect
        split
        · next hresponse => exact .gone hm hresponse
        · next stream hresponse => exact .forced hm hresponse
    · cases h
  | forceClosed =>
    simp only [System.watch] at h
    split at h <;> cases h
    next hm => exact .forceClosed hm

/-- The state at the time of an event. -/
abbrev clocked (s : System I) (now : ℚ) : System I := { s with clock := now }

/-- A step of the consumer happens no earlier than the last event. -/
theorem step_consumer {event : ConsumerEvent I} {now : ℚ}
    (h : s.step program (.consumer event, now) = some s') :
    s.clock ≤ now ∧ Consumed program (clocked s now) event s' := by
  simp only [System.step] at h
  split at h
  · cases h
  · next hnow => exact ⟨not_lt.mp hnow, consume_cases h⟩

/-- A step of the monitor happens no earlier than the last event. -/
theorem step_monitor {event : MonitorEvent} {now : ℚ}
    (h : s.step program (.monitor event, now) = some s') :
    s.clock ≤ now ∧ Watched (clocked s now) event s' := by
  simp only [System.step] at h
  split at h
  · cases h
  · next hnow => exact ⟨not_lt.mp hnow, watch_cases h⟩

/-! ### What the tasks leave alone -/

section
variable (p : Prog I PyError Unit)

/-- The consumer goes on without the monitor. -/
@[simp] theorem goOn_monitor : (s.goOn p).monitor = s.monitor := by cases p <;> rfl

/-- No stream is opened by going on. -/
@[simp] theorem goOn_streams : (s.goOn p).streams = s.streams := by cases p <;> rfl

/-- No stream is forced by going on. -/
@[simp] theorem goOn_forced : (s.goOn p).forced = s.forced := by cases p <;> rfl

/-- Going on logs no call. -/
@[simp] theorem goOn_log : (s.goOn p).log = s.log := by cases p <;> rfl

/-- Going on takes no time. -/
@[simp] theorem goOn_clock : (s.goOn p).clock = s.clock := by cases p <;> rfl

/-- Going on is no activity. -/
@[simp] theorem goOn_lastActivity : (s.goOn p).listener.lastActivity = s.listener.lastActivity := by
  cases p <;> rfl

/-- Going on leaves the backoff. -/
@[simp] theorem goOn_backoff : (s.goOn p).listener.backoff = s.listener.backoff := by
  cases p <;> rfl

end

/-- The consumer leaves the monitor alone. -/
theorem Consumed.monitor_eq {event : ConsumerEvent I} (h : Consumed program s event s') :
    s'.monitor = s.monitor := by
  cases h <;> first | rfl | exact goOn_monitor _

/-- The consumer forces no stream. -/
theorem Consumed.forced_eq {event : ConsumerEvent I} (h : Consumed program s event s') :
    s'.forced = s.forced := by
  cases h <;> first | rfl | exact goOn_forced _

/-- A step of the consumer takes no time of its own. -/
theorem Consumed.clock_eq {event : ConsumerEvent I} (h : Consumed program s event s') :
    s'.clock = s.clock := by
  cases h <;> first | rfl | exact goOn_clock _

/-- The monitor leaves the consumer alone. -/
structure SameConsumer (s s' : System I) : Prop where
  consumer : s'.consumer = s.consumer
  backoff : s'.listener.backoff = s.listener.backoff
  response : s'.listener.response = s.listener.response
  streams : s'.streams = s.streams
  log : s'.log = s.log
  /-- A wake-up is never taken back. -/
  wakeup : s.listener.wakeup = true → s'.listener.wakeup = true

/-- The monitor leaves the consumer alone. -/
theorem Watched.sameConsumer {event : MonitorEvent} (h : Watched s event s') :
    SameConsumer s s' := by
  cases h with
  | wakeProbed => exact ⟨rfl, rfl, rfl, rfl, rfl, fun h => by simp [System.sleep, h]⟩
  | _ => exact ⟨rfl, rfl, rfl, rfl, rfl, id⟩

/-- A step of the monitor takes no time of its own. -/
theorem Watched.clock_eq {event : MonitorEvent} (h : Watched s event s') :
    s'.clock = s.clock := by
  cases h <;> rfl

/-- The event is one of the monitor. -/
def IsMonitor : Event I → Prop
  | .monitor _ => True
  | .consumer _ => False

/-- Events of the monitor leave the consumer alone. -/
theorem sameConsumer_run {events : List (Timed I)} (honly : ∀ ev ∈ events, IsMonitor ev.1)
    (h : s.run program events = some s') : SameConsumer s s' := by
  revert honly
  refine Machine.run_induction (motive := fun events s' =>
    (∀ ev ∈ events, IsMonitor ev.1) → SameConsumer s s') ?_ ?_ h
  · exact fun _ => ⟨rfl, rfl, rfl, rfl, rfl, id⟩
  · rintro events s₁ ⟨event, now⟩ s₂ ih hstep honly
    have h₁ := ih fun ev hev => honly ev (List.mem_append_left _ hev)
    cases event with
    | consumer e => exact absurd (honly _ (List.mem_append_right _ (List.mem_singleton.mpr rfl))) id
    | monitor e =>
      have h₂ := (step_monitor hstep).2.sameConsumer
      exact ⟨h₂.consumer.trans h₁.consumer, h₂.backoff.trans h₁.backoff,
        h₂.response.trans h₁.response, h₂.streams.trans h₁.streams, h₂.log.trans h₁.log,
        fun hw => h₂.wakeup (h₁.wakeup hw)⟩

/-! ### The backoff -/

/-- The retries since the last healthy connect, after one more event. -/
def retriesStep (retries : Nat) : Event I → Nat
  | .consumer (.responded status) => if 200 ≤ status ∧ status ≤ 299 then 0 else retries
  | .consumer .woken | .consumer .timedOut => retries + 1
  | _ => retries

/-- The retries since the last healthy connect. -/
def retries (events : List (Timed I)) : Nat := events.foldl (fun k ev => retriesStep k ev.1) 0

/-- The backoff after a number of retries. -/
def backoffAfter (retries : Nat) : ℚ := min (sseRetryDelayInitial * 2 ^ retries) sseRetryDelayMax

/-- The backoff doubles up to its limit. -/
theorem backoffAfter_succ (k : Nat) :
    backoffAfter (k + 1) = min (backoffAfter k * 2) sseRetryDelayMax := by
  rw [backoffAfter, backoffAfter, min_mul_of_nonneg _ _ (by norm_num), min_assoc,
    min_eq_right (a := sseRetryDelayMax * 2) (by norm_num [sseRetryDelayMax]), pow_succ, mul_assoc]

/-- A step keeps the backoff in line with the number of retries. -/
theorem backoff_step {ev : Timed I} {k : Nat} (h : s.step program ev = some s')
    (hk : s.listener.backoff = backoffAfter k) :
    s'.listener.backoff = backoffAfter (retriesStep k ev.1) := by
  obtain ⟨event, now⟩ := ev
  cases event with
  | monitor e => exact (step_monitor h).2.sameConsumer.backoff.trans hk
  | consumer e =>
    -- Only a healthy connect resets the backoff, and only the end of a wait doubles it.
    cases (step_consumer h).2 with
    | connected _ hs =>
      show sseRetryDelayInitial = backoffAfter (if _ then 0 else k)
      rw [if_pos hs]
      norm_num [backoffAfter, sseRetryDelayInitial, sseRetryDelayMax]
    | refused _ hs =>
      show s.listener.backoff = backoffAfter (if _ then 0 else k)
      rw [if_neg hs, hk]
    | line => rw [goOn_backoff]; exact hk
    | answered => rw [goOn_backoff]; exact hk
    | woken =>
      show min (s.listener.backoff * 2) _ = backoffAfter (k + 1)
      rw [hk, backoffAfter_succ]
    | timedOut =>
      show min (s.listener.backoff * 2) _ = backoffAfter (k + 1)
      rw [hk, backoffAfter_succ]
    | _ => exact hk

/-- The consumer is in its backoff. -/
def Waits (s : System I) : Prop := ∃ deadline, s.consumer = .waiting deadline

/-- The event ends a connection, or an attempt at one. -/
def BeginsWait : Event I → Prop
  | .consumer (.connectFailed _) | .consumer (.closed _) => True
  | _ => False

/-- A consumer that goes on does not wait. -/
theorem goOn_not_waits {p : Prog I PyError Unit} : ¬ Waits (s.goOn p) := by
  rintro ⟨deadline, h⟩
  cases p <;> cases h

/-- The bounds of the delay. -/
theorem backOff_deadline {random : ℚ} (hb : 0 < s.listener.backoff)
    (hr : 0 ≤ random ∧ random < 1) {deadline : ℚ}
    (h : (s.backOff random).consumer = .waiting deadline) :
    s.clock + s.listener.backoff ≤ deadline ∧
      deadline < s.clock + s.listener.backoff * (1 + sseRetryJitter) := by
  obtain ⟨h₀, h₁⟩ := hr
  have hdeadline : deadline
      = s.clock + (s.listener.backoff + s.listener.backoff * sseRetryJitter * random) := by
    cases h
    rfl
  have hj : (0 : ℚ) < s.listener.backoff * sseRetryJitter :=
    mul_pos hb (by norm_num [sseRetryJitter])
  have hlow := mul_nonneg hj.le h₀
  have hhigh := mul_lt_mul_of_pos_left h₁ hj
  constructor <;> linarith

/-- A wait begins without a wake-up, and with a delay that the backoff bounds. -/
theorem begins_of_waits {event : Event I} {now : ℚ}
    (h : s.step program (event, now) = some s') (hb : 0 < s.listener.backoff)
    (hs : ¬ Waits s) (hs' : Waits s') :
    BeginsWait event ∧ s'.listener.wakeup = false ∧ ∀ deadline, s'.consumer = .waiting deadline →
      now + s'.listener.backoff ≤ deadline ∧
        deadline < now + s'.listener.backoff * (1 + sseRetryJitter) := by
  cases event with
  | monitor e =>
    obtain ⟨deadline, hw⟩ := hs'
    exact absurd ⟨deadline, (step_monitor h).2.sameConsumer.consumer.symm.trans hw⟩ hs
  | consumer e =>
    cases (step_consumer h).2 with
    | connectFailed _ hr =>
      exact ⟨trivial, rfl, fun deadline => backOff_deadline (s := clocked s now) hb hr⟩
    | closed _ hr =>
      exact ⟨trivial, rfl, fun deadline => backOff_deadline (s := clocked s now) hb hr⟩
    | line => exact absurd hs' goOn_not_waits
    | answered => exact absurd hs' goOn_not_waits
    | _ =>
      obtain ⟨deadline, hw⟩ := hs'
      cases hw

/-- A step inside a wait is one of the monitor. -/
theorem isMonitor_of_waits {event : Event I} {now : ℚ}
    (h : s.step program (event, now) = some s') (hs : Waits s) (hs' : Waits s') :
    IsMonitor event := by
  cases event with
  | monitor e => exact trivial
  | consumer e =>
    obtain ⟨deadline, hw⟩ := hs
    obtain ⟨deadline', hw'⟩ := hs'
    -- Only the two ends of a wait are possible, and neither leads into one.
    cases (step_consumer h).2 with
    | woken => cases hw'
    | timedOut => cases hw'
    | connectFailed hc | connected hc | refused hc | line hc | streamEnded hc | answered hc
    | closed hc => cases hw.symm.trans hc

/-- The backoff is positive. -/
theorem backoffAfter_pos (k : Nat) : 0 < backoffAfter k :=
  lt_min (mul_pos (by norm_num [sseRetryDelayInitial]) (by positivity))
    (by norm_num [sseRetryDelayMax])

variable {events : List (Timed I)} {t₀ : ℚ}

/-- In every run the backoff is given by the number of retries. -/
theorem backoff_run (h : (System.start I t₀).run program events = some s) :
    s.listener.backoff = backoffAfter (retries events) := by
  refine Machine.run_induction (motive := fun events s =>
    s.listener.backoff = backoffAfter (retries events)) ?_ ?_ h
  · norm_num [System.start, retries, backoffAfter, sseRetryDelayInitial, sseRetryDelayMax]
  · intro events s₁ ev s₂ ih hstep
    rw [backoff_step hstep ih, retries, retries, List.foldl_append]
    rfl

/-- A wait has begun with an event of the run, and behind it there are only events of the
monitor. -/
theorem wait_began (h : (System.start I t₀).run program events = some s) (hw : Waits s) :
    ∃ before event begun after, ∃ s₁ : System I, events = before ++ (event, begun) :: after ∧
      BeginsWait event ∧ (∀ ev ∈ after, IsMonitor ev.1) ∧ s₁.listener.wakeup = false ∧
      s₁.run program after = some s ∧ ∀ deadline, s.consumer = .waiting deadline →
        begun + s.listener.backoff ≤ deadline ∧
          deadline < begun + s.listener.backoff * (1 + sseRetryJitter) := by
  have hstart : ¬ Waits (System.start I t₀) := by
    rintro ⟨deadline, h⟩
    cases h
  obtain ⟨before, ⟨event, begun⟩, after, s₀, s₁, rfl, hbefore, hstep, hs₀, hs₁, hafter, hin⟩ :=
    Machine.run_since hstart h hw
  have honly : ∀ ev ∈ after, IsMonitor ev.1 := by
    intro ev hev
    obtain ⟨u, u', hu, hwu, hwu'⟩ := hin ev hev
    exact isMonitor_of_waits hu hwu hwu'
  have hb : 0 < s₀.listener.backoff := by
    rw [backoff_run hbefore]
    exact backoffAfter_pos _
  obtain ⟨hbegins, hwakeup, hdeadline⟩ := begins_of_waits hstep hb hs₀ hs₁
  have hsame := sameConsumer_run honly hafter
  refine ⟨before, event, begun, after, s₁, rfl, hbegins, honly, hwakeup, hafter, ?_⟩
  rw [hsame.consumer, hsame.backoff]
  exact hdeadline

/-- In every run the backoff is 2 s, doubled with each retry since the last healthy connect, and
at most 5 s. A wait lasts at least the backoff, unless it is woken, and its deadline is less than
a fifth of the backoff later. -/
theorem backoff_law (h : (System.start I t₀).run program events = some s) :
    s.listener.backoff = min (2 * 2 ^ retries events) 5 ∧
      ∀ deadline, s.consumer = .waiting deadline →
        ∃ before event begun after, events = before ++ (event, begun) :: after ∧
          BeginsWait event ∧ (∀ ev ∈ after, IsMonitor ev.1) ∧
          begun + s.listener.backoff ≤ deadline ∧
            deadline < begun + s.listener.backoff * (6 / 5) := by
  -- A wait has begun with an event of the run, which fixed its deadline.
  refine ⟨backoff_run h, fun deadline hw => ?_⟩
  obtain ⟨before, event, begun, after, -, hevents, hbegins, honly, -, -, hdeadline⟩ :=
    wait_began h ⟨deadline, hw⟩
  have hfactor : 1 + sseRetryJitter = 6 / 5 := by norm_num [sseRetryJitter]
  rw [hfactor] at hdeadline
  exact ⟨before, event, begun, after, hevents, hbegins, honly, hdeadline deadline hw⟩

/-- The deadline of a wait. -/
def deadlineOf (s : System I) : Option ℚ :=
  match s.consumer with
  | .waiting deadline => some deadline
  | _ => none

/-- The deadline of a wait. -/
theorem deadlineOf_eq_some {deadline : ℚ} :
    deadlineOf s = some deadline ↔ s.consumer = .waiting deadline := by
  unfold deadlineOf
  cases s.consumer <;> simp

/-- A program without calls. -/
def ignoreLine (_ : Line) : Prog Listener.calls PyError Unit := .pure ()

/-- Two attempts fail while the daemon is down. The monitor finds it again in the second wait. -/
def daemonDown : List (Timed Listener.calls) :=
  [(.consumer (.connectFailed 0), 0), (.consumer .timedOut, 2),
    (.consumer (.connectFailed (1 / 2)), 4), (.monitor .woke, 5),
    (.monitor (.wakeProbed true), 6)]

/-- The run against a daemon that is down. -/
theorem run_daemonDown : ∃ s, (System.start Listener.calls 0).run ignoreLine daemonDown = some s ∧
    s.consumer = .waiting (42 / 5) ∧ s.clock = 6 := by
  obtain ⟨s, hrun, htest⟩ := Option.map_eq_some_iff.mp (show ((System.start Listener.calls 0).run
    ignoreLine daemonDown).map (fun s => (deadlineOf s, s.clock)) = some (some (42 / 5), 6) by
      decide +kernel)
  obtain ⟨hdeadline, hclock⟩ := Prod.mk.inj htest
  exact ⟨s, hrun, deadlineOf_eq_some.mp hdeadline, hclock⟩

/-- The law for a daemon that is down. -/
theorem backoff_law_daemonDown : ∃ s,
    (System.start Listener.calls 0).run ignoreLine daemonDown = some s ∧
      s.listener.backoff = min (2 * 2 ^ retries daemonDown) 5 ∧
      ∀ deadline, s.consumer = .waiting deadline →
        ∃ before event begun after, daemonDown = before ++ (event, begun) :: after ∧
          BeginsWait event ∧ (∀ ev ∈ after, IsMonitor ev.1) ∧
          begun + s.listener.backoff ≤ deadline ∧
            deadline < begun + s.listener.backoff * (6 / 5) := by
  obtain ⟨s, hrun, -⟩ := run_daemonDown
  exact ⟨s, hrun, backoff_law hrun⟩

/-! ### Wake-ups -/

/-- The monitor sets the wake-up only behind an answered probe between two streams. -/
theorem wakeup_step {event : MonitorEvent} (h : Watched s event s')
    (hs : s.listener.wakeup = false) (hs' : s'.listener.wakeup = true) :
    event = .wakeProbed true := by
  cases h with
  | wakeProbed =>
    rename_i reachable _
    cases reachable with
    | true => rfl
    | false => exact absurd (hs.symm.trans hs') Bool.false_ne_true
  | _ => exact absurd (hs.symm.trans hs') Bool.false_ne_true

/-- A wait can end early exactly if a probe between two streams, which is not a probe of a quiet
stream, was answered during this very wait. A wake-up from before the wait does not count. -/
theorem woken_iff {deadline now : ℚ} (h : (System.start I t₀).run program events = some s)
    (hw : s.consumer = .waiting deadline) (hnow : s.clock ≤ now) :
    (∃ s', s.step program (.consumer .woken, now) = some s') ↔
      ∃ before event begun waited probed after,
        events = before ++ (event, begun) :: (waited ++
            (.monitor (.wakeProbed true), probed) :: after) ∧
          BeginsWait event ∧ ∀ ev ∈ waited ++ after, IsMonitor ev.1 := by
  constructor
  · rintro ⟨s', hstep⟩
    have hwakeup : s.listener.wakeup = true := by
      cases (step_consumer hstep).2 with
      | woken _ hwakeup => exact hwakeup
    obtain ⟨before, event, begun, rest, s₁, rfl, hbegins, honly, hclear, hrest, -⟩ :=
      wait_began h ⟨deadline, hw⟩
    -- The flag was cleared when the wait began, so it was set behind that.
    obtain ⟨waited, ⟨e, probed⟩, after, u, u', rfl, -, he, hu, hu', -, -⟩ :=
      Machine.run_since (P := fun s => s.listener.wakeup = true) (by simp [hclear]) hrest hwakeup
    have hmonitor := honly (e, probed) (by simp)
    cases e with
    | consumer e => exact absurd hmonitor id
    | monitor e =>
      obtain rfl := wakeup_step (step_monitor he).2 (Bool.not_eq_true _ ▸ hu) hu'
      refine ⟨before, event, begun, waited, probed, after, rfl, hbegins, fun ev hev => ?_⟩
      rcases List.mem_append.mp hev with hev | hev
      · exact honly ev (List.mem_append_left _ hev)
      · exact honly ev (List.mem_append_right _ (List.mem_cons_of_mem _ hev))
  · rintro ⟨before, event, begun, waited, probed, after, rfl, -, honly⟩
    obtain ⟨-, s₁, -, -, hrest⟩ := Machine.run_split.mp h
    obtain ⟨u, u', -, hprobe, hafter⟩ := Machine.run_split.mp hrest
    have hset : u'.listener.wakeup = true := by
      cases (step_monitor hprobe).2 with
      | wakeProbed => rfl
    have hwakeup := (sameConsumer_run (fun ev hev =>
      honly ev (List.mem_append_right _ hev)) hafter).wakeup hset
    refine ⟨(clocked s now).retry, ?_⟩
    rw [System.step, if_neg (not_lt.mpr hnow)]
    show (clocked s now).consume program .woken = _
    rw [System.consume, show (clocked s now).consumer = .waiting deadline from hw]
    exact if_pos hwakeup

/-- A probe that is answered wakes the consumer of that run. -/
theorem woken_iff_daemonDown : ∃ s,
    (System.start Listener.calls 0).run ignoreLine daemonDown = some s ∧
      ((∃ s', s.step ignoreLine (.consumer .woken, 7) = some s') ↔
        ∃ before event begun waited probed after,
          daemonDown = before ++ (event, begun) :: (waited ++
              (.monitor (.wakeProbed true), probed) :: after) ∧
            BeginsWait event ∧ ∀ ev ∈ waited ++ after, IsMonitor ev.1) := by
  obtain ⟨s, hrun, hw, hclock⟩ := run_daemonDown
  exact ⟨s, hrun, woken_iff hrun hw (by rw [hclock]; norm_num)⟩

/-! ### Forced closes -/

/-- A healthy connect. -/
def isConnect : Event I → Bool
  | .consumer (.responded status) => decide (200 ≤ status ∧ status ≤ 299)
  | _ => false

/-- What the monitor counts as a sign of life: a connect, a line, or an answered probe of a quiet
stream. -/
def Activity : Event I → Prop
  | .consumer (.responded status) => 200 ≤ status ∧ status ≤ 299
  | .consumer (.line _) => True
  | .monitor (.idleProbed true) => True
  | _ => False

/-- What holds of the streams in every reachable state. -/
structure Streams (s : System I) : Prop where
  /-- The response that is held is the one of the last stream. -/
  last : ∀ stream, s.listener.response = some stream → stream + 1 = s.streams
  forced : ∀ stream ∈ s.forced, stream < s.streams
  quiet : s.listener.lastActivity ≤ s.clock

/-- Going on keeps the stream or drops it. -/
theorem goOn_response (p : Prog I PyError Unit) :
    (s.goOn p).listener.response = s.listener.response ∨
      (s.goOn p).listener.response = none := by
  cases p with
  | raise e => exact .inr rfl
  | _ => exact .inl rfl

/-- A stream that is there was there before. -/
theorem response_of_goOn {p : Prog I PyError Unit} {stream : Nat}
    (h : (s.goOn p).listener.response = some stream) : s.listener.response = some stream := by
  rcases goOn_response (s := s) p with hr | hr
  · exact hr.symm.trans h
  · cases hr.symm.trans h

/-- Going on keeps the numbers of the streams. -/
theorem Streams.goOn (h : Streams s) (p : Prog I PyError Unit) : Streams (s.goOn p) := by
  refine ⟨fun stream hs => ?_, ?_, ?_⟩
  · rw [goOn_streams]
    exact h.last stream (response_of_goOn hs)
  · rw [goOn_forced, goOn_streams]
    exact h.forced
  · rw [goOn_lastActivity, goOn_clock]
    exact h.quiet

/-- A step keeps the numbers of the streams. -/
theorem Streams.step {ev : Timed I} (h : Streams s) (hstep : s.step program ev = some s') :
    Streams s' := by
  obtain ⟨event, now⟩ := ev
  cases event with
  | consumer e =>
    obtain ⟨hnow, hc⟩ := step_consumer hstep
    have h' : Streams (clocked s now) := ⟨h.last, h.forced, h.quiet.trans hnow⟩
    cases hc with
    | connected =>
      refine ⟨fun stream hs => ?_, fun stream hs => ?_, le_refl _⟩
      · cases hs
        rfl
      · exact (h.forced stream hs).trans (Nat.lt_succ_self _)
    | line =>
      refine Streams.goOn ?_ _
      exact ⟨h'.last, h'.forced, le_refl _⟩
    | answered =>
      refine Streams.goOn ?_ _
      exact ⟨h'.last, h'.forced, h'.quiet⟩
    | streamEnded => exact ⟨fun stream hs => (by cases hs), h'.forced, h'.quiet⟩
    | _ => exact ⟨h'.last, h'.forced, h'.quiet⟩
  | monitor e =>
    obtain ⟨hnow, hc⟩ := step_monitor hstep
    have h' : Streams (clocked s now) := ⟨h.last, h.forced, h.quiet.trans hnow⟩
    cases hc with
    | alive => exact ⟨h'.last, h'.forced, le_refl _⟩
    | forced _ hresponse =>
      refine ⟨h'.last, fun stream hs => ?_, h'.quiet⟩
      rcases List.mem_append.mp hs with hs | hs
      · exact h'.forced stream hs
      · obtain rfl := List.mem_singleton.mp hs
        show _ < s.streams
        rw [← h.last _ hresponse]
        exact Nat.lt_succ_self _
    | _ => exact ⟨h'.last, h'.forced, h'.quiet⟩

/-- What the history says about the streams and the last sign of life. -/
structure History (events : List (Timed I)) (s : System I) : Prop where
  streams : s.streams = events.countP fun ev => isConnect ev.1
  activity : ∀ ev ∈ events, Activity ev.1 → ev.2 ≤ s.listener.lastActivity
  /-- A live stream has shown a sign of life at that time. -/
  last : ∀ stream, s.listener.response = some stream →
    ∃ ev ∈ events, Activity ev.1 ∧ ev.2 = s.listener.lastActivity

/-- An event that is no sign of life. -/
theorem History.idle {event : Event I} {now : ℚ} (h : History events s)
    (hidle : ¬ Activity event) (hconnect : isConnect event = false)
    (hstreams : s'.streams = s.streams)
    (hlast : s'.listener.lastActivity = s.listener.lastActivity)
    (hresponse : s'.listener.response = s.listener.response ∨ s'.listener.response = none) :
    History (events ++ [(event, now)]) s' := by
  refine ⟨?_, fun ev hev hact => ?_, fun stream hs => ?_⟩
  · rw [hstreams, h.streams, List.countP_append, List.countP_singleton]
    simp [hconnect]
  · rw [hlast]
    rcases List.mem_append.mp hev with hev | hev
    · exact h.activity ev hev hact
    · obtain rfl := List.mem_singleton.mp hev
      exact absurd hact hidle
  · rcases hresponse with hr | hr
    · obtain ⟨ev, hev, hact, htime⟩ := h.last stream (hr ▸ hs)
      exact ⟨ev, List.mem_append_left _ hev, hact, htime.trans hlast.symm⟩
    · rw [hr] at hs
      cases hs

/-- A sign of life. -/
theorem History.active {event : Event I} {now : ℚ} (h : History events s)
    (hact : Activity event) (hquiet : s.listener.lastActivity ≤ now)
    (hstreams : s'.streams = s.streams + if isConnect event then 1 else 0)
    (hlast : s'.listener.lastActivity = now) : History (events ++ [(event, now)]) s' := by
  refine ⟨?_, fun ev hev hact' => ?_, fun _ _ => ⟨(event, now), by simp, hact, hlast.symm⟩⟩
  · rw [hstreams, h.streams, List.countP_append, List.countP_singleton]
  · rw [hlast]
    rcases List.mem_append.mp hev with hev | hev
    · exact (h.activity ev hev hact').trans hquiet
    · obtain rfl := List.mem_singleton.mp hev
      exact le_refl _

/-- A step extends the history of the streams. -/
theorem History.step {ev : Timed I} (h : History events s) (hs : Streams s)
    (hstep : s.step program ev = some s') : History (events ++ [ev]) s' := by
  obtain ⟨event, now⟩ := ev
  cases event with
  | consumer e =>
    obtain ⟨hnow, hc⟩ := step_consumer hstep
    have hquiet := hs.quiet.trans hnow
    cases hc with
    | connected _ hok => exact h.active hok hquiet (by simp [isConnect, hok, System.connect]) rfl
    | refused _ hbad =>
      exact h.idle hbad (by simp only [isConnect, hbad, decide_false]) rfl rfl (.inl rfl)
    | line => exact h.active trivial hquiet (by simp [isConnect]) (by simp)
    | streamEnded => exact h.idle id rfl rfl rfl (.inr rfl)
    | answered => exact h.idle id rfl (by simp) (by simp) (goOn_response _)
    | _ => exact h.idle id rfl rfl rfl (.inl rfl)
  | monitor e =>
    obtain ⟨hnow, hc⟩ := step_monitor hstep
    cases hc with
    | alive => exact h.active trivial (hs.quiet.trans hnow) (by simp [isConnect, System.sleep]) rfl
    | _ => exact h.idle id rfl rfl rfl (.inl rfl)

/-- Every run has its history. -/
theorem history_run (h : (System.start I t₀).run program events = some s) :
    Streams s ∧ History events s := by
  refine Machine.run_induction (motive := fun events s => Streams s ∧ History events s) ?_ ?_ h
  · refine ⟨⟨fun stream hs => (by cases hs), fun stream hs => absurd hs List.not_mem_nil,
      le_refl _⟩, rfl, fun ev hev => absurd hev List.not_mem_nil, fun stream hs => (by cases hs)⟩
  · exact fun events s₁ ev s₂ ih hstep => ⟨ih.1.step hstep, ih.2.step ih.1 hstep⟩

/-- The monitor waits for the probe of a quiet stream. -/
def Probes (s : System I) : Prop := ∃ since, s.monitor = .idleProbe since

/-- A probe of a quiet stream has begun when the monitor woke, found a stream that had been quiet
for long enough, and has not been answered since. -/
theorem probe_began (h : (System.start I t₀).run program events = some s) (hp : Probes s) :
    ∃ before woke during, ∃ s₁ : System I, ∃ live,
      events = before ++ (.monitor .woke, woke) :: during ∧ (∀ ev ∈ during, ¬ IsMonitor ev.1) ∧
      (System.start I t₀).run program before = some s₁ ∧ s₁.listener.response = some live ∧
      s₁.listener.lastActivity + healthCheckStaleThreshold ≤ woke := by
  have hstart : ¬ Probes (System.start I t₀) := by
    rintro ⟨since, h⟩
    cases h
  obtain ⟨before, ⟨event, woke⟩, during, s₁, s₂, rfl, hbefore, hstep, hs₁, hs₂, -, hin⟩ :=
    Machine.run_since hstart h hp
  have honly : ∀ ev ∈ during, ¬ IsMonitor ev.1 := by
    rintro ⟨e, now⟩ hev hmonitor
    obtain ⟨u, u', hu, ⟨since, hsince⟩, ⟨since', hsince'⟩⟩ := hin _ hev
    cases e with
    | consumer e => exact hmonitor
    | monitor e =>
      -- A step of the monitor ends the probe.
      cases (step_monitor hu).2 with
      | alive => cases hsince'
      | gone => cases hsince'
      | forced => cases hsince'
      | betweenStreams hm | active hm | quiet hm | wakeProbed hm | forceClosed hm =>
        cases hsince.symm.trans hm
  cases event with
  | consumer e =>
    obtain ⟨since, hsince⟩ := hs₂
    exact absurd ⟨since, (step_consumer hstep).2.monitor_eq.symm.trans hsince⟩ hs₁
  | monitor e =>
    obtain ⟨since, hsince⟩ := hs₂
    cases (step_monitor hstep).2 with
    | quiet hm hw hresponse hidle =>
      refine ⟨before, woke, during, s₁, _, rfl, honly, hbefore, hresponse, ?_⟩
      have : healthCheckStaleThreshold ≤ woke - s₁.listener.lastActivity := hidle
      linarith
    | _ => cases hsince

/-- The monitor closes a stream only behind a probe that failed. When the probe began, some
stream was live and had shown no sign of life for 30 s. The stream that is closed is the last
one that connected before the probe ended: the quiet one, unless a new one connected during the
probe. -/
theorem forced_close {stream : Nat} (h : (System.start I t₀).run program events = some s)
    (hs : stream ∈ s.forced) :
    ∃ before woke during probed after, ∃ s₁ : System I, ∃ live,
      events = before ++ (.monitor .woke, woke) ::
        (during ++ (.monitor (.idleProbed false), probed) :: after) ∧
      (∀ ev ∈ during, ¬ IsMonitor ev.1) ∧
      (System.start I t₀).run program before = some s₁ ∧ s₁.listener.response = some live ∧
      (∀ ev ∈ before, Activity ev.1 → ev.2 + 30 ≤ woke) ∧
      stream + 1 = (before ++ during).countP (fun ev => isConnect ev.1) ∧
      (stream = live ∨ ∃ ev ∈ during, isConnect ev.1 = true) := by
  obtain ⟨front, ⟨event, probed⟩, after, s₂, s₃, rfl, hfront, hstep, hs₂, hs₃, -, -⟩ :=
    Machine.run_since (P := fun s => stream ∈ s.forced) List.not_mem_nil h hs
  cases event with
  | consumer e => exact absurd ((step_consumer hstep).2.forced_eq ▸ hs₃) hs₂
  | monitor e =>
    cases (step_monitor hstep).2 with
    | forced hm hresponse =>
      -- The stream that joins the list is the one whose response is held.
      rcases List.mem_append.mp hs₃ with hs₃ | hs₃
      · exact absurd hs₃ hs₂
      obtain rfl := List.mem_singleton.mp hs₃
      obtain ⟨before, woke, during, s₁, live, rfl, honly, hbefore, hlive, hidle⟩ :=
        probe_began hfront ⟨_, hm⟩
      obtain ⟨hstreams₁, hhistory₁⟩ := history_run hbefore
      obtain ⟨hstreams₂, hhistory₂⟩ := history_run hfront
      have hcount : stream + 1 = (before ++ during).countP fun ev => isConnect ev.1 := by
        rw [hstreams₂.last stream hresponse, hhistory₂.streams, List.countP_append,
          List.countP_append, List.countP_cons]
        rfl
      refine ⟨before, woke, during, probed, after, s₁, live, by simp, honly, hbefore, hlive,
        fun ev hev hact => ?_, hcount, ?_⟩
      · have := hhistory₁.activity ev hev hact
        rw [healthCheckStaleThreshold] at hidle
        linarith
      · by_cases hnew : ∃ ev ∈ during, isConnect ev.1 = true
        · exact .inr hnew
        · refine .inl ?_
          have hnone : during.countP (fun ev => isConnect ev.1) = 0 :=
            List.countP_eq_zero.mpr fun ev hev hconnect => hnew ⟨ev, hev, hconnect⟩
          have hlast := hstreams₁.last live hlive
          rw [hhistory₁.streams] at hlast
          rw [List.countP_append, hnone] at hcount
          omega
    | _ => exact absurd hs₃ hs₂

/-- A stream connects and falls silent, and a probe of it fails. -/
def quietStream : List (Timed Listener.calls) :=
  [(.consumer (.responded 200), 0), (.monitor .woke, 5), (.monitor .woke, 10),
    (.monitor .woke, 15), (.monitor .woke, 20), (.monitor .woke, 25), (.monitor .woke, 30),
    (.monitor (.idleProbed false), 31)]

/-- The law for a stream that goes quiet. -/
theorem forced_close_quietStream : ∃ s,
    (System.start Listener.calls 0).run ignoreLine quietStream = some s ∧
      ∃ before woke during probed after, ∃ s₁ : System Listener.calls, ∃ live,
        quietStream = before ++ (.monitor .woke, woke) ::
          (during ++ (.monitor (.idleProbed false), probed) :: after) ∧
        (∀ ev ∈ during, ¬ IsMonitor ev.1) ∧
        (System.start Listener.calls 0).run ignoreLine before = some s₁ ∧
          s₁.listener.response = some live ∧
        (∀ ev ∈ before, Activity ev.1 → ev.2 + 30 ≤ woke) ∧
        0 + 1 = (before ++ during).countP (fun ev => isConnect ev.1) ∧
        (0 = live ∨ ∃ ev ∈ during, isConnect ev.1 = true) := by
  obtain ⟨s, hrun, hforced⟩ := Option.map_eq_some_iff.mp (show ((System.start Listener.calls 0).run
    ignoreLine quietStream).map (·.forced) = some [0] by decide +kernel)
  exact ⟨s, hrun, forced_close hrun (hforced ▸ List.mem_singleton.mpr rfl)⟩

/-! ### How long a stream can be silent -/

/-- How late a sleep of the monitor can end, and how long its probes and its closes can take. -/
structure Limits where
  slack : ℚ
  probe : ℚ
  close : ℚ

/-- The latest time for the next step of the monitor. -/
def Limits.due (limits : Limits) : Monitor → ℚ
  | .sleeping wakeAt => wakeAt + limits.slack
  | .wakeProbe since | .idleProbe since => since + limits.probe
  | .closing _ since => since + limits.close

/-- A step in a run in which the monitor is never late. -/
def onTime (limits : Limits) (program : Line → Prog I PyError Unit) (s : System I)
    (ev : Timed I) : Option (System I) :=
  if ev.2 ≤ limits.due s.monitor then s.step program ev else none

/-- A step that is on time is a step. -/
theorem onTime_eq_some {limits : Limits} {ev : Timed I} :
    onTime limits program s ev = some s' ↔
      ev.2 ≤ limits.due s.monitor ∧ s.step program ev = some s' := by
  rw [onTime]
  split
  · next h => exact ⟨fun hs => ⟨h, hs⟩, And.right⟩
  · next h => exact ⟨fun hs => (by cases hs), fun hs => absurd hs.1 h⟩

/-- A run that is on time is a run. -/
theorem run_of_onTime {limits : Limits} : ∀ {events : List (Timed I)} {s : System I},
    Machine.run (onTime limits program) s events = some s' → s.run program events = some s' := by
  intro events
  induction events with
  | nil => exact id
  | cons ev events ih =>
    intro s h
    obtain ⟨s₁, hstep, hrun⟩ := Machine.run_cons.mp h
    exact Machine.run_cons.mpr ⟨s₁, (onTime_eq_some.mp hstep).2, ih hrun⟩

/-- What the monitor does has begun by `now`. -/
def Begun (now : ℚ) : Monitor → Prop
  | .sleeping wakeAt => wakeAt ≤ now + healthCheckInterval
  | .wakeProbe since | .idleProbe since | .closing _ since => since ≤ now

/-- When the monitor can have begun what it does, measured from the last sign of life of a
stream. -/
def Punctual (limits : Limits) (lastActivity : ℚ) : Monitor → Prop
  | .sleeping wakeAt => wakeAt ≤ lastActivity + (healthCheckStaleThreshold + healthCheckInterval)
  | .wakeProbe since | .closing _ since => since ≤ lastActivity
  | .idleProbe since => since ≤ lastActivity +
      (healthCheckStaleThreshold + healthCheckInterval + limits.slack)

/-- What has begun has begun later, too. -/
theorem Begun.mono {now now' : ℚ} {m : Monitor} (h : Begun now m) (hle : now ≤ now') :
    Begun now' m := by
  cases m with
  | sleeping wakeAt => exact le_trans (b := now + healthCheckInterval) h (by linarith)
  | _ => exact le_trans (b := now) h hle

/-- Later activity leaves more time. -/
theorem Punctual.mono {limits : Limits} {a a' : ℚ} {m : Monitor} (h : Punctual limits a m)
    (hle : a ≤ a') : Punctual limits a' m := by
  cases m with
  | sleeping wakeAt =>
    exact le_trans (b := a + (healthCheckStaleThreshold + healthCheckInterval)) h (by linarith)
  | idleProbe since =>
    exact le_trans (b := a + (healthCheckStaleThreshold + healthCheckInterval + limits.slack)) h
      (by linarith)
  | _ => exact le_trans (b := a) h hle

/-- The time of a step shows that what the monitor does has begun by then. -/
theorem begun_step {ev : Timed I} (h : Begun s.clock s.monitor)
    (hstep : s.step program ev = some s') : Begun s'.clock s'.monitor := by
  obtain ⟨event, now⟩ := ev
  cases event with
  | consumer e =>
    obtain ⟨hnow, hc⟩ := step_consumer hstep
    rw [hc.monitor_eq, hc.clock_eq]
    exact h.mono hnow
  | monitor e =>
    cases (step_monitor hstep).2 <;> exact le_refl _

/-- While a stream is live and not closed by force, the monitor is punctual. -/
structure Guarded (limits : Limits) (s : System I) : Prop where
  streams : Streams s
  begun : Begun s.clock s.monitor
  punctual : ∀ stream, s.listener.response = some stream → stream ∉ s.forced →
    Punctual limits s.listener.lastActivity s.monitor

section
variable {limits : Limits} (hslack : 0 ≤ limits.slack)
  (hprobe : limits.probe ≤ healthCheckStaleThreshold)
  (hclose : limits.close ≤ healthCheckStaleThreshold)

include hslack in
/-- A new stream finds the monitor punctual. -/
theorem punctual_of_begun {now : ℚ} {m : Monitor} (h : Begun now m) : Punctual limits now m := by
  cases m with
  | sleeping wakeAt =>
    refine le_trans (b := now + healthCheckInterval) h ?_
    norm_num [healthCheckStaleThreshold, healthCheckInterval]
  | idleProbe since =>
    refine le_trans (b := now) h ?_
    norm_num [healthCheckStaleThreshold, healthCheckInterval]
    linarith
  | _ => exact h

include hslack in
/-- The consumer leaves the stream guarded. -/
theorem Guarded.consume {e : ConsumerEvent I} {now : ℚ} (h : Guarded limits s)
    (hnow : s.clock ≤ now) (hc : Consumed program (clocked s now) e s') {stream : Nat}
    (hresponse : s'.listener.response = some stream) (hforced : stream ∉ s'.forced) :
    Punctual limits s'.listener.lastActivity s'.monitor := by
  rw [hc.forced_eq] at hforced
  rw [hc.monitor_eq]
  -- The stream was live before, unless it has just connected.
  have hbefore : ∀ {a : ℚ}, s.listener.response = some stream → s.listener.lastActivity ≤ a →
      Punctual limits a s.monitor := fun hr hle => (h.punctual stream hr hforced).mono hle
  cases hc with
  | connected => exact punctual_of_begun hslack (h.begun.mono hnow)
  | line =>
    rw [goOn_lastActivity]
    have hlive := response_of_goOn hresponse
    exact hbefore hlive (h.streams.quiet.trans hnow)
  | streamEnded => cases hresponse
  | answered =>
    rw [goOn_lastActivity]
    have hlive := response_of_goOn hresponse
    exact hbefore hlive (le_refl _)
  | _ => exact hbefore hresponse (le_refl _)

include hprobe hclose in
/-- The monitor leaves the stream guarded if it is on time. -/
theorem Guarded.watch {e : MonitorEvent} {now : ℚ} (h : Guarded limits s)
    (hdue : now ≤ limits.due s.monitor) (hc : Watched (clocked s now) e s') {stream : Nat}
    (hresponse : s'.listener.response = some stream) (hforced : stream ∉ s'.forced) :
    Punctual limits s'.listener.lastActivity s'.monitor := by
  -- The monitor goes to sleep within the threshold of the last sign of life.
  have hsleep : ∀ {a : ℚ}, now ≤ a + healthCheckStaleThreshold →
      Punctual limits a (.sleeping (now + healthCheckInterval)) := fun hle =>
    show _ ≤ _ by linarith
  have hbefore := fun hr hf => h.punctual stream hr hf
  cases hc with
  | betweenStreams _ _ hnone => cases hnone.symm.trans hresponse
  | active _ _ _ hidle =>
    have hidle' : now - s.listener.lastActivity < healthCheckStaleThreshold := hidle
    refine hsleep (a := s.listener.lastActivity) ?_
    linarith
  | quiet hm hw =>
    have hwake := hbefore hresponse hforced
    rw [show s.monitor = _ from hm] at hwake hdue
    have hwake' : _ ≤ s.listener.lastActivity + _ := hwake
    have hdue' : now ≤ _ + limits.slack := hdue
    show now ≤ s.listener.lastActivity + _
    linarith
  | wakeProbed hm =>
    have hsince := hbefore hresponse hforced
    rw [show s.monitor = _ from hm] at hsince hdue
    have hsince' : _ ≤ s.listener.lastActivity := hsince
    have hdue' : now ≤ _ + limits.probe := hdue
    refine hsleep (a := s.listener.lastActivity) ?_
    linarith
  | alive => exact hsleep (a := now) (by norm_num [healthCheckStaleThreshold])
  | gone _ hnone => cases hnone.symm.trans hresponse
  | forced _ hlive =>
    cases hlive.symm.trans hresponse
    exact absurd (List.mem_append_right _ (List.mem_singleton.mpr rfl)) hforced
  | forceClosed hm =>
    have hsince := hbefore hresponse hforced
    rw [show s.monitor = _ from hm] at hsince hdue
    have hsince' : _ ≤ s.listener.lastActivity := hsince
    have hdue' : now ≤ _ + limits.close := hdue
    refine hsleep (a := s.listener.lastActivity) ?_
    linarith

include hslack hprobe hclose in
/-- In every run that is on time the stream is guarded. -/
theorem guarded_run (h : Machine.run (onTime limits program) (System.start I t₀) events = some s) :
    Guarded limits s := by
  refine Machine.run_induction (motive := fun _ s => Guarded limits s) ?_ ?_ h
  · exact ⟨⟨fun stream hs => (by cases hs), fun stream hs => absurd hs List.not_mem_nil,
      le_refl _⟩, le_refl _, fun stream hs => (by cases hs)⟩
  · rintro events s₁ ⟨event, now⟩ s₂ ih hstep
    obtain ⟨hdue, hstep⟩ := onTime_eq_some.mp hstep
    refine ⟨ih.streams.step hstep, begun_step ih.begun hstep, fun stream hresponse hforced => ?_⟩
    cases event with
    | consumer e =>
      obtain ⟨hnow, hc⟩ := step_consumer hstep
      exact ih.consume hslack hnow hc hresponse hforced
    | monitor e =>
      exact ih.watch hprobe hclose hdue (step_monitor hstep).2 hresponse hforced

include hslack hprobe hclose in
/-- If the monitor wakes on time and its probes and closes take at most 30 s, then every live
stream that it has not closed has connected, carried a line or answered a probe in the last 35 s,
plus the slack and the time of a probe. -/
theorem silence_bounded (h₀ : 0 ≤ limits.probe)
    (h : Machine.run (onTime limits program) (System.start I t₀) events = some s) {stream : Nat}
    (hlive : s.listener.response = some stream) (hopen : stream ∉ s.forced) {now : ℚ}
    (hnow : now ≤ limits.due s.monitor) :
    ∃ ev ∈ events, Activity ev.1 ∧ now - ev.2 ≤ 35 + limits.slack + limits.probe := by
  obtain ⟨ev, hev, hact, htime⟩ := (history_run (run_of_onTime h)).2.last stream hlive
  refine ⟨ev, hev, hact, ?_⟩
  -- How long ago the last activity was follows from what the monitor does now.
  have hpunctual := (guarded_run hslack hprobe hclose h).punctual stream hlive hopen
  rw [htime]
  cases hm : s.monitor with
  | sleeping wakeAt =>
    rw [hm] at hpunctual hnow
    have hwake : wakeAt ≤ _ := hpunctual
    have hdue : now ≤ wakeAt + limits.slack := hnow
    norm_num [healthCheckStaleThreshold, healthCheckInterval] at hwake
    linarith
  | wakeProbe since =>
    rw [hm] at hpunctual hnow
    have hsince : since ≤ _ := hpunctual
    have hdue : now ≤ since + limits.probe := hnow
    linarith
  | idleProbe since =>
    rw [hm] at hpunctual hnow
    have hsince : since ≤ _ := hpunctual
    have hdue : now ≤ since + limits.probe := hnow
    norm_num [healthCheckStaleThreshold, healthCheckInterval] at hsince
    linarith
  | closing stream' since =>
    rw [hm] at hpunctual hnow
    have hsince : since ≤ _ := hpunctual
    have hdue : now ≤ since + limits.close := hnow
    norm_num [healthCheckStaleThreshold] at hclose
    linarith

end

/-- A monitor that is late by at most half a second. -/
def halfSecond : Limits := ⟨1 / 2, 5, 1⟩

/-- The bound for a stream that goes quiet. -/
theorem silence_bounded_quietStream : ∃ s, Machine.run (onTime halfSecond ignoreLine)
      (System.start Listener.calls 0) (quietStream.take 6) = some s ∧
    ∃ ev ∈ quietStream.take 6, Activity ev.1 ∧
      30 - ev.2 ≤ 35 + halfSecond.slack + halfSecond.probe := by
  obtain ⟨s, hrun, htest⟩ := Option.map_eq_some_iff.mp (show (Machine.run
    (onTime halfSecond ignoreLine) (System.start Listener.calls 0) (quietStream.take 6)).map
      (fun s => (s.listener.response, s.forced, decide (30 ≤ halfSecond.due s.monitor)))
        = some (some 0, [], true) by decide +kernel)
  simp only [Prod.mk.injEq, decide_eq_true_eq] at htest
  obtain ⟨hlive, hforced, hdue⟩ := htest
  exact ⟨s, hrun, silence_bounded (by norm_num [halfSecond])
    (by norm_num [halfSecond, healthCheckStaleThreshold])
    (by norm_num [halfSecond, healthCheckStaleThreshold]) (by norm_num [halfSecond]) hrun hlive
    (hforced ▸ List.not_mem_nil) hdue⟩

end

end SignalGateway.Proofs.Connection
