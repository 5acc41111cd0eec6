import SignalGateway.AttachmentBatch
import SignalGateway.Proofs.RateLimit

/-!
# `SignalGateway.Proofs.UploadTime`: what a refill credits

`tokensAdded` is what the refills of a run add, and `idleIntegral` the integral of the refill
rate over the times without an RPC in flight. A token check credits the time since the last
restart of the refill clock. `UploadCredited` says that an RPC was in flight in that time.
`upload_not_credited` shows that nothing else lets a run credit more than its idle time.

`step_spec` is the step lemma, and `Accounted` the invariant of the accounts.

In `Accounted`, the tokens that are added, plus those that would be added now, are at most the
integral so far, if no upload was credited. `step_spec` says of every event whether it restarts the
refill clock. `settle_spec` does the same for the scheduler calls that a batch makes in one go.

The finding is `credited_failedUpload`: an RPC that fails without a rate limit does not restart the
refill clock, and the time of its upload is credited.
-/

set_option autoImplicit false

namespace SignalGateway.Proofs.AttachmentBatch

open SignalGateway.AttachmentBatch
open SignalGateway.Rpc (Action SendError)
open SignalGateway.RateLimit (Scheduler bucketCapacity defaultRetryAfterSeconds)
open SignalGateway.Proofs.RateLimit (ValidAt acquirePass_cases validAt_refill takes_granted
  takes_feedback takes_reportRpcDuration projected_eq_level)

variable {repr : Json → Except PyError PyStr}
  {listGt : List Json → List Json → Except PyError Bool}

/-- Whether an event refills the bucket. A call of `acquire` for no token, or for too many,
does not look at it. -/
def tokenCheck (s : System) : Event → Bool
  | .check i =>
      match s.tasks[i]? with
      | some ⟨.call (.acquire n) _, _⟩ => 0 < n ∧ n ≤ s.scheduler.capacity
      | _ => false
  | .start _ _ | .rpcStart _ | .rpcEnd _ _ | .wake _ => false

/-- The tokens a refill at an event adds. -/
def refilled (s : System) (event : Event) (now : ℚ) : ℚ :=
  if tokenCheck s event then (s.scheduler.refill now).tokens - s.scheduler.tokens else 0

/-- The integral of the refill rate over the idle time up to the next event. -/
def idleGain (s : System) (now : ℚ) : ℚ :=
  if s.inFlight then 0 else (now - s.clock) * s.scheduler.refillRate

/-- The tokens all refills of a run add. -/
def tokensAdded : System → List (Event × ℚ) → List System → ℚ
  | s, (event, now) :: events, s' :: states => refilled s event now + tokensAdded s' events states
  | _, _, _ => 0

/-- The integral of the refill rate over the times of a run without an RPC in flight. -/
def idleIntegral : System → List (Event × ℚ) → List System → ℚ
  | s, (_, now) :: events, s' :: states => idleGain s now + idleIntegral s' events states
  | _, _, _ => 0

/-- At some step of the run, a bucket that is not full is refilled, and an RPC was in flight
since the refill clock was last restarted. -/
def UploadCredited : System → List (Event × ℚ) → List System → Prop
  | s, (event, now) :: events, s' :: states =>
      (tokenCheck s event = true ∧ s.scheduler.tokens < s.scheduler.capacity ∧
        s.scheduler.lastRefill < (s.tick now).busyUntil) ∨ UploadCredited s' events states
  | _, _, _ => False

/-! ### What a step does to the scheduler -/

section
variable {now : ℚ}

/-- A task that runs on leaves the scheduler alone, or restarts its clock. -/
theorem settle_spec (program : Action Bool) : ∀ {scheduler : Scheduler}, ValidAt scheduler now →
    ValidAt (settle now scheduler program).1 now ∧
      ((settle now scheduler program).1 = scheduler ∨
        (settle now scheduler program).1.lastRefill = now) := by
  induction program with
  | pure b => exact fun h => ⟨h, .inl rfl⟩
  | raise e => exact fun h => ⟨h, .inl rfl⟩
  | call op next ih =>
    intro scheduler h
    cases op with
    | monotonic => exact ih now h
    | reportRpcDuration rpcDuration n =>
      obtain ⟨hvalid, hlast⟩ := ih () (takes_reportRpcDuration h rpcDuration n).valid
      refine ⟨hvalid, ?_⟩
      -- If the rest of the task leaves the bucket alone, what this call did stands.
      rcases hlast with heq | hlast
      · show (settle now (scheduler.reportRpcDuration rpcDuration n now) (next ())).1 = _ ∨
          (settle now (scheduler.reportRpcDuration rpcDuration n now) (next ())).1.lastRefill = _
        rw [heq, Scheduler.reportRpcDuration]
        split
        · exact .inl rfl
        · exact .inr rfl
      · exact .inr hlast
    | feedback retryAfter n =>
      obtain ⟨hvalid, hlast⟩ := ih () (takes_feedback h retryAfter n).valid
      refine ⟨hvalid, .inr ?_⟩
      rcases hlast with heq | hlast
      · show (settle now (scheduler.feedback retryAfter n now) (next ())).1.lastRefill = _
        rw [heq]
        rfl
      · exact hlast
    | acquire n => exact ⟨h, .inl rfl⟩
    | post method params timeout => exact ⟨h, .inl rfl⟩
    | sleep seconds => exact ⟨h, .inl rfl⟩

/-- What a step does to the scheduler. -/
structure SchedulerStep (s : System) (event : Event) (now : ℚ) (s' : System) : Prop where
  clock_eq : s'.clock = now
  busyUntil_eq : s'.busyUntil = (s.tick now).busyUntil
  valid : ValidAt s'.scheduler now
  restarted : s'.scheduler = s.scheduler ∨ s'.scheduler.lastRefill = now
  checked : tokenCheck s event = true → s'.scheduler.lastRefill = now

/-- A task goes on, without a token check. -/
theorem resume_spec {s : System} {event : Event} (hvalid : ValidAt s.scheduler now)
    (hcheck : tokenCheck s event = false) (i : Nat) (program : Action Bool) :
    SchedulerStep s event now ((s.tick now).resume i program) := by
  obtain ⟨hvalid', hlast⟩ := settle_spec program hvalid
  exact ⟨rfl, rfl, hvalid', hlast, fun h => by rw [hcheck] at h; cases h⟩

/-- A task whose pass has restarted the clock goes on. -/
theorem resume_restarted {s : System} {event : Event} {scheduler : Scheduler}
    (hvalid : ValidAt scheduler now) (hlast : scheduler.lastRefill = now) (i : Nat)
    (program : Action Bool) :
    SchedulerStep s event now ({ s.tick now with scheduler }.resume i program) := by
  obtain ⟨hvalid', hsettled⟩ := settle_spec program hvalid
  have hrestart : (settle now scheduler program).1.lastRefill = now := by
    rcases hsettled with hsame | hrestart
    · rw [hsame]
      exact hlast
    · exact hrestart
  exact ⟨rfl, rfl, hvalid', .inr hrestart, fun _ => hrestart⟩

/-- A pass of `acquire`. -/
theorem acquireStep_spec {s : System} {event : Event} (hvalid : ValidAt s.scheduler now) {i : Nat}
    {n : ℤ} (hcheck : tokenCheck s event = decide (0 < n ∧ n ≤ s.scheduler.capacity))
    (next : Except SendError ℚ → Action Bool) (slept : ℚ) :
    SchedulerStep s event now ((s.tick now).acquireStep i n next slept) := by
  unfold System.acquireStep
  split
  · next hn =>
    refine resume_spec hvalid ?_ i _
    rw [hcheck, decide_eq_false fun h => absurd h.1 (not_lt.mpr hn)]
  · next hn =>
    split
    · next hcap =>
      refine resume_spec hvalid ?_ i _
      rw [hcheck, decide_eq_false fun h => absurd h.2 (not_le.mpr hcap)]
    · -- A pass restarts the clock of the bucket, whether it grants the tokens or not.
      have hscheduler : (s.tick now).scheduler = s.scheduler := rfl
      have hclock : (s.tick now).clock = now := rfl
      have hrefill := validAt_refill hvalid
      rw [hscheduler, hclock]
      rcases acquirePass_cases s.scheduler n now with
        ⟨hle, hpass⟩ | ⟨-, -, hpass⟩ | ⟨-, -, hpass⟩
      · rw [hpass]
        exact resume_restarted (takes_granted hvalid (not_le.mp hn) hle).valid rfl i _
      · rw [hpass]
        exact ⟨rfl, rfl, hrefill, .inr rfl, fun _ => rfl⟩
      · rw [hpass]
        exact resume_restarted hrefill rfl i _

/-- What one event does. -/
theorem step_spec {s s' : System} {event : Event} (h : s.step repr listGt event now = some s')
    (hvalid : ValidAt s.scheduler s.clock) : s.clock ≤ now ∧ SchedulerStep s event now s' := by
  unfold System.step at h
  split at h
  · cases h
  rename_i hnow
  have hle := not_lt.mp hnow
  have hvalid' : ValidAt s.scheduler now := hvalid.mono hle
  refine ⟨hle, ?_⟩
  cases event with
  | start params n =>
    cases h
    exact ⟨rfl, rfl, hvalid', .inl rfl, fun h => by cases h⟩
  | check i =>
    simp only at h
    split at h
    · next n next status htask =>
      obtain ⟨slept, -, rfl⟩ := Option.map_eq_some_iff.mp h
      refine acquireStep_spec hvalid' ?_ next slept
      -- the check of a waiting task is the token check of the scheduler
      have htask' : s.tasks[i]? = some ⟨.call (.acquire n) next, status⟩ := htask
      simp only [tokenCheck, htask']
    · cases h
  | rpcStart i =>
    simp only at h
    split at h
    · cases h
      exact ⟨rfl, rfl, hvalid', .inl rfl, fun h => by cases h⟩
    · cases h
  | rpcEnd i answer =>
    simp only at h
    split at h
    · next method params timeout next htask =>
      cases h
      exact resume_spec hvalid' rfl i (next answer)
    · cases h
  | wake i =>
    simp only at h
    split at h
    · next seconds next status htask =>
      obtain ⟨slept, -, rfl⟩ := Option.map_eq_some_iff.mp h
      exact resume_spec hvalid' rfl i (next ())
    · cases h

end

/-! ### The accounts of a run -/

/-- A refill credits at most the time since the refill clock was restarted. -/
theorem refill_le {scheduler : Scheduler} {now : ℚ} (h : ValidAt scheduler now) :
    (scheduler.refill now).tokens - scheduler.tokens
      ≤ (now - scheduler.lastRefill) * scheduler.refillRate := by
  have hlevel : (scheduler.refill now).tokens ≤ scheduler.tokens
      + (now - scheduler.lastRefill) * scheduler.refillRate := by
    show scheduler.projected now ≤ _
    rw [projected_eq_level h]
    exact min_le_right _ _
  linarith

/-- A full bucket gets nothing. -/
theorem refill_of_full {scheduler : Scheduler} {now : ℚ}
    (h : ¬ scheduler.tokens < scheduler.capacity) :
    (scheduler.refill now).tokens - scheduler.tokens = 0 := by
  show scheduler.projected now - _ = 0
  rw [Scheduler.projected, if_neg fun hc => h hc.2, sub_self]

/-- The accounts at some point of a run. The idle time since the last restart of the refill
clock is not used up, as long as no RPC was in flight in it. -/
structure Accounted (s : System) (added idle : ℚ) : Prop where
  valid : ValidAt s.scheduler s.clock
  added_le : added ≤ idle
  unused : s.busyUntil ≤ s.scheduler.lastRefill →
    added + (s.clock - s.scheduler.lastRefill) * s.scheduler.refillRate ≤ idle

variable {s s' : System} {event : Event} {now added idle : ℚ}

/-- No step loses idle time. -/
theorem idleGain_nonneg (hvalid : ValidAt s.scheduler s.clock) (hle : s.clock ≤ now) :
    0 ≤ idleGain s now := by
  unfold idleGain
  split
  · exact le_rfl
  · exact mul_nonneg (sub_nonneg.mpr hle) hvalid.rate_nonneg

/-- Time that passes without an RPC in flight is not used up. -/
theorem Accounted.unused_tick (h : Accounted s added idle) (hle : s.clock ≤ now)
    (hbusy : (s.tick now).busyUntil ≤ s.scheduler.lastRefill) :
    added + (now - s.scheduler.lastRefill) * s.scheduler.refillRate ≤ idle + idleGain s now := by
  have hlast : s.scheduler.lastRefill ≤ s.clock := h.valid.last_le
  by_cases hbusied : s.inFlight = true ∧ s.clock < now
  · -- An RPC in flight up to `now` leaves no time since the restart.
    have hnow : (s.tick now).busyUntil = now := if_pos hbusied
    rw [hnow] at hbusy
    linarith [hbusied.2]
  · have hold : (s.tick now).busyUntil = s.busyUntil := if_neg hbusied
    rw [hold] at hbusy
    have hunused := h.unused hbusy
    have hgain : idleGain s now = (now - s.clock) * s.scheduler.refillRate := by
      unfold idleGain
      split
      · next hflight =>
        have hnow : now = s.clock := le_antisymm (not_lt.mp fun hlt => hbusied ⟨hflight, hlt⟩) hle
        rw [hnow, sub_self, zero_mul]
      · rfl
    rw [hgain]
    calc added + (now - s.scheduler.lastRefill) * s.scheduler.refillRate
        = added + (s.clock - s.scheduler.lastRefill) * s.scheduler.refillRate
          + (now - s.clock) * s.scheduler.refillRate := by ring
      _ ≤ idle + (now - s.clock) * s.scheduler.refillRate := by linarith

/-- One step keeps the accounts, if it credits no upload time. -/
theorem Accounted.step (h : Accounted s added idle) (hstep : s.step repr listGt event now = some s')
    (hclear : ¬ (tokenCheck s event = true ∧ s.scheduler.tokens < s.scheduler.capacity ∧
      s.scheduler.lastRefill < (s.tick now).busyUntil)) :
    Accounted s' (added + refilled s event now) (idle + idleGain s now) := by
  obtain ⟨hle, hspec⟩ := step_spec hstep h.valid
  have hgain := idleGain_nonneg h.valid hle
  have hvalid : ValidAt s.scheduler now := h.valid.mono hle
  have hadded : added + refilled s event now ≤ idle + idleGain s now := by
    unfold refilled
    split
    · next hcheck =>
      by_cases hfull : s.scheduler.tokens < s.scheduler.capacity
      · have hbusy : (s.tick now).busyUntil ≤ s.scheduler.lastRefill :=
          not_lt.mp fun hlt => hclear ⟨hcheck, hfull, hlt⟩
        have hcredit := refill_le hvalid
        have hunused := h.unused_tick hle hbusy
        linarith
      · rw [refill_of_full hfull]
        linarith [h.added_le]
    · linarith [h.added_le]
  refine ⟨hspec.clock_eq ▸ hspec.valid, hadded, fun hbusy => ?_⟩
  rw [hspec.clock_eq]
  -- Unless the clock was restarted, the tokens of the time since then are still to come.
  rcases hspec.restarted with hsame | hrestart
  · by_cases hcheck : tokenCheck s event = true
    · rw [hspec.checked hcheck, sub_self, zero_mul, add_zero]
      exact hadded
    · rw [hspec.busyUntil_eq, hsame] at hbusy
      rw [hsame, refilled, if_neg hcheck, add_zero]
      exact h.unused_tick hle hbusy
  · rw [hrestart, sub_self, zero_mul, add_zero]
    exact hadded

/-- The accounts of a run that credits no upload time. -/
theorem Accounted.run : ∀ {events : List (Event × ℚ)} {s : System} {states : List System}
    {added idle : ℚ}, Accounted s added idle → s.run repr listGt events = some states →
      ¬ UploadCredited s events states →
        added + tokensAdded s events states ≤ idle + idleIntegral s events states := by
  intro events
  induction events with
  | nil =>
    intro s states added idle h hrun _
    obtain rfl : [] = states := Option.some.inj hrun
    simpa [tokensAdded, idleIntegral] using h.added_le
  | cons e events ih =>
    obtain ⟨event, now⟩ := e
    intro s states added idle h hrun hclear
    simp only [System.run, Option.bind_eq_bind, Option.bind_eq_some_iff, Option.some.injEq] at hrun
    obtain ⟨s', hstep, rest, hrest, rfl⟩ := hrun
    rw [UploadCredited, not_or] at hclear
    have hlater := ih (h.step hstep hclear.1) hrest hclear.2
    rw [tokensAdded, idleIntegral, ← add_assoc, ← add_assoc]
    exact hlater

/-- In every run in which no refill credits a time with an RPC in flight, all refills together
add at most the integral of the refill rate over the idle times. -/
theorem upload_not_credited {repr : Json → Except PyError PyStr}
    {listGt : List Json → List Json → Except PyError Bool} {capacity defaultRetryAfter t₀ : ℚ}
    (hcapacity : 0 < capacity) (hretry : 0 < defaultRetryAfter) {events : List (Event × ℚ)}
    {states : List System}
    (hrun : (System.create capacity defaultRetryAfter t₀).run repr listGt events = some states)
    (hclear : ¬ UploadCredited (.create capacity defaultRetryAfter t₀) events states) :
    tokensAdded (.create capacity defaultRetryAfter t₀) events states
      ≤ idleIntegral (.create capacity defaultRetryAfter t₀) events states := by
  have hvalid : ValidAt (System.create capacity defaultRetryAfter t₀).scheduler t₀ :=
    ⟨hcapacity.le, le_rfl, (one_div_pos.mpr hretry).le, le_rfl⟩
  -- At the start nothing is added, and the clock has not run.
  have hstart : Accounted (.create capacity defaultRetryAfter t₀) 0 0 := by
    refine ⟨hvalid, le_rfl, fun _ => ?_⟩
    show 0 + (t₀ - t₀) * _ ≤ 0
    rw [sub_self, zero_mul, add_zero]
  simpa using hstart.run hrun hclear

instance decidableUploadCredited : ∀ (s : System) (events : List (Event × ℚ))
    (states : List System), Decidable (UploadCredited s events states)
  | s, (event, now) :: events, s' :: states =>
      have := decidableUploadCredited s' events states
      inferInstanceAs (Decidable ((tokenCheck s event = true ∧
        s.scheduler.tokens < s.scheduler.capacity ∧
        s.scheduler.lastRefill < (s.tick now).busyUntil) ∨ UploadCredited s' events states))
  | _, [], _ => .isFalse id
  | _, _ :: _, [] => .isFalse id

/-- An upload of a minute fails, and its batch is tried again after two seconds. -/
def failedUpload : List (Event × ℚ) :=
  [(.start [] 30, 0), (.check 0, 0), (.rpcStart 0, 0), (.rpcEnd 0 (.error .httpError), 60),
    (.wake 0, 62), (.check 0, 62)]

/-- The second check is credited with the minute of the upload. -/
theorem credited_failedUpload :
    ∃ states, (System.create bucketCapacity defaultRetryAfterSeconds 0).run (fun _ => .ok [])
        (fun _ _ => .ok false) failedUpload = some states ∧
      tokensAdded (.create bucketCapacity defaultRetryAfterSeconds 0) failedUpload states = 31 / 2 ∧
      idleIntegral (.create bucketCapacity defaultRetryAfterSeconds 0) failedUpload states = 1 / 2 ∧
      ¬ tokensAdded (.create bucketCapacity defaultRetryAfterSeconds 0) failedUpload states
        ≤ idleIntegral (.create bucketCapacity defaultRetryAfterSeconds 0) failedUpload states := by
  have hrun : ((System.create bucketCapacity defaultRetryAfterSeconds 0).run (fun _ => .ok [])
      (fun _ _ => .ok false) failedUpload).map (fun states =>
        (tokensAdded (.create bucketCapacity defaultRetryAfterSeconds 0) failedUpload states,
          idleIntegral (.create bucketCapacity defaultRetryAfterSeconds 0) failedUpload states))
      = some (31 / 2, 1 / 2) := by
    decide +kernel
  obtain ⟨states, hstates, heq⟩ := Option.map_eq_some_iff.mp hrun
  obtain ⟨hadded, hidle⟩ := Prod.mk.inj heq
  refine ⟨states, hstates, hadded, hidle, ?_⟩
  rw [hadded, hidle]
  norm_num

/-- An upload of a minute succeeds, and another batch follows. -/
def successfulUpload : List (Event × ℚ) :=
  [(.start [] 30, 0), (.check 0, 0), (.rpcStart 0, 0),
    (.rpcEnd 0 (.ok ⟨200, .ok (.obj [(lit "result", .int 1)])⟩), 60), (.start [] 10, 70),
    (.check 1, 70)]

/-- The bound for an upload that succeeds. -/
theorem upload_not_credited_successfulUpload :
    ∃ states, (System.create bucketCapacity defaultRetryAfterSeconds 0).run (fun _ => .ok [])
        (fun _ _ => .ok false) successfulUpload = some states ∧
      tokensAdded (.create bucketCapacity defaultRetryAfterSeconds 0) successfulUpload states
        ≤ idleIntegral (.create bucketCapacity defaultRetryAfterSeconds 0) successfulUpload
            states := by
  have hrun : ((System.create bucketCapacity defaultRetryAfterSeconds 0).run (fun _ => .ok [])
      (fun _ _ => .ok false) successfulUpload).map (fun states => decide (UploadCredited
        (.create bucketCapacity defaultRetryAfterSeconds 0) successfulUpload states))
      = some false := by
    decide +kernel
  obtain ⟨states, hstates, hclear⟩ := Option.map_eq_some_iff.mp hrun
  exact ⟨states, hstates, upload_not_credited (by norm_num [bucketCapacity])
    (by norm_num [defaultRetryAfterSeconds]) hstates (of_decide_eq_false hclear)⟩

end SignalGateway.Proofs.AttachmentBatch
