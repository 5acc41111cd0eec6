import SignalGateway.Proofs.EstimateWait

/-!
# `SignalGateway.Proofs.DefaultScheduler`: the scheduler that all sends share

`Default` is what holds of the scheduler of the process in every run: its capacity stays that of
the constructor, and while its rate is zero its bucket is empty. `default_step` is the step lemma.

What a task meets there follows from it.

* `estimateWait_error_iff`: an estimate raises exactly if the rate is zero.
* `checked_acquire` and `checked_wake`: so does a token check for at most the capacity. Otherwise
  it is granted, or falls asleep.
* `granted_of_sleeping`: a call that falls asleep finds its tokens at its deadline, if nothing
  intervenes.

A rate of zero is stored by a hint without end. From then on the bucket is never refilled. The
invariant says that it is empty then, because a feedback empties it. So a token check has to
divide by the rate, and raises. `checked_passStep` is the case analysis behind the token checks.
-/

set_option autoImplicit false

namespace SignalGateway.Proofs.RateLimit

open SignalGateway.RateLimit

/-- What holds of the default scheduler in every run. As long as the rate is zero, the bucket is
empty. -/
structure Default (s : System) : Prop where
  valid : ValidAt s.scheduler s.clock
  waiting : WaitersPos s
  capacity : s.scheduler.capacity = bucketCapacity
  drained : s.scheduler.refillRate = 0 → s.scheduler.tokens = 0

variable {s s' : System} {event : Event} {now : ℚ} {record : Record}

/-- An empty bucket that is not refilled stays empty. -/
theorem projected_eq_zero {scheduler : Scheduler} (hcapacity : 0 ≤ scheduler.capacity)
    (hrate : scheduler.refillRate = 0) (htokens : scheduler.tokens = 0) (now : ℚ) :
    scheduler.projected now = 0 := by
  simp only [Scheduler.projected, hrate, htokens, mul_zero, add_zero]
  split
  · exact min_eq_right hcapacity
  · rfl

/-- A pass leaves an empty bucket empty. -/
theorem drained_passStep {s : System} (hcapacity : 0 ≤ s.scheduler.capacity)
    (hdrained : s.scheduler.refillRate = 0 → s.scheduler.tokens = 0) (id : Nat) {n : ℤ}
    (hn : 0 < n) (slept now : ℚ) :
    (passStep s id n slept now).1.scheduler.refillRate = 0 →
      (passStep s id n slept now).1.scheduler.tokens = 0 := by
  have hn' : (0 : ℚ) < n := by exact_mod_cast hn
  rcases passStep_cases s id n slept now with ⟨hle, hpass⟩ | ⟨w, -, -, -, hpass⟩ | ⟨-, -, hpass⟩
  · rw [hpass]
    intro hrate
    have hrate : s.scheduler.refillRate = 0 := hrate
    -- an empty bucket grants nothing
    rw [projected_eq_zero hcapacity hrate (hdrained hrate)] at hle
    exact absurd hle (not_le.mpr hn')
  · rw [hpass]
    exact fun hrate => projected_eq_zero hcapacity hrate (hdrained hrate) now
  · rw [hpass]
    exact fun hrate => projected_eq_zero hcapacity hrate (hdrained hrate) now

/-- Every event keeps the default scheduler what it is. -/
theorem default_step (h : step s event now = some (s', record)) (hs : Default s) :
    Default s' := by
  obtain ⟨hle, hclock, hwaiting, htakes⟩ := step_bucket h hs.valid hs.waiting
  have hcapacity : 0 ≤ s.scheduler.capacity := hs.valid.tokens_nonneg.trans hs.valid.tokens_le
  refine ⟨hclock ▸ htakes.valid, hwaiting, (capacity_step h).1.trans hs.capacity, ?_⟩
  cases (performed_of_step h).2 with
  | free hid hn => exact hs.drained
  | refused hid hcap => exact hs.drained
  | first hid hn hcap =>
    exact drained_passStep (s := { s with clock := now, nextId := _ }) hcapacity hs.drained _ hn _ _
  | @again w hw =>
    exact drained_passStep (s := { s with clock := now, waiting := s.waiting.erase w }) hcapacity
      hs.drained _ (hs.waiting w hw) _ _
  | feedback retryAfter nAttempted => exact fun _ => rfl
  | reported rpcDuration nAttachments =>
    unfold Scheduler.reportRpcDuration
    split
    · exact hs.drained
    · exact hs.drained
  | estimated n => exact hs.drained
  | state => exact hs.drained

/-- A call that sleeps goes on sleeping until its own sleep ends. -/
theorem mem_waiting_step {w : Waiter}
    (h : step s event now = some (s', record)) (hw : w ∈ s.waiting)
    (hother : event ≠ .wake w) : w ∈ s'.waiting := by
  have hpass : ∀ (s₀ : System) (id : Nat) (n : ℤ) (slept : ℚ), w ∈ s₀.waiting →
      w ∈ (passStep s₀ id n slept now).1.waiting := by
    intro s₀ id n slept hw
    rcases passStep_cases s₀ id n slept now with ⟨-, hpass⟩ | ⟨w', -, -, -, hpass⟩ | ⟨-, -, hpass⟩
    · rw [hpass]
      exact hw
    · rw [hpass]
      exact List.mem_append_left _ hw
    · rw [hpass]
      exact hw
  cases (performed_of_step h).2 with
  | first hid hn hcap => exact hpass _ _ _ _ hw
  | @again w' hmem =>
    refine hpass _ _ _ _ (List.mem_erase_of_ne ?_ |>.mpr hw)
    rintro rfl
    exact hother rfl
  | _ => exact hw

/-- An estimate for some tokens raises exactly if the bucket is not refilled. -/
theorem estimateWait_error_iff (hs : Default s) {n : ℤ} (hn : 0 < n) (now : ℚ) :
    (∃ e, s.scheduler.estimateWait n now = .error e) ↔ s.scheduler.refillRate = 0 := by
  have hcapacity : 0 ≤ s.scheduler.capacity := hs.valid.tokens_nonneg.trans hs.valid.tokens_le
  have hn' : (0 : ℚ) < n := by exact_mod_cast hn
  simp only [Scheduler.estimateWait]
  rcases waitFor_eq s.scheduler (n - s.scheduler.projected now) with
    ⟨hrate, hwait⟩ | ⟨hrate, hwait⟩
  · refine iff_of_false ?_ hrate
    rintro ⟨e, he⟩
    rw [hwait] at he
    split at he <;> cases he
  · refine iff_of_true ⟨.zeroDivisionError, ?_⟩ hrate
    rw [projected_eq_zero hcapacity hrate (hs.drained hrate), sub_zero, if_neg (not_le.mpr hn')]
    rw [projected_eq_zero hcapacity hrate (hs.drained hrate), sub_zero] at hwait
    exact hwait

/-- How a token check for `n` tokens ends. It raises exactly if the bucket is not refilled. -/
inductive Checked (s : System) (n : ℤ) (s' : System) : Record → Prop
    where
  | granted (id : Nat) (slept : ℚ) (hrate : s.scheduler.refillRate ≠ 0) :
      Checked s n s' (.granted id n slept)
  | sleeping (w : Waiter) (hrate : s.scheduler.refillRate ≠ 0) (hn : w.n = n)
      (hmem : w ∈ s'.waiting) : Checked s n s' (.sleeping w)
  | raised (id : Nat) (e : PyError) (hrate : s.scheduler.refillRate = 0) :
      Checked s n s' (.raised id n e)

/-- What a pass of the loop checks. -/
theorem checked_passStep (s₀ : System) (hs : Default s) (heq : s₀.scheduler = s.scheduler)
    (id : Nat) {n : ℤ} (hn : 0 < n) (slept now : ℚ) :
    Checked s n (passStep s₀ id n slept now).1
      (passStep s₀ id n slept now).2 := by
  have hcapacity : 0 ≤ s.scheduler.capacity := hs.valid.tokens_nonneg.trans hs.valid.tokens_le
  have hn' : (0 : ℚ) < n := by exact_mod_cast hn
  rcases passStep_cases s₀ id n slept now with
    ⟨hle, hpass⟩ | ⟨w, -, hrate, rfl, hpass⟩ | ⟨-, hrate, hpass⟩
  · rw [hpass]
    refine .granted id slept fun hrate => ?_
    rw [heq, projected_eq_zero hcapacity hrate (hs.drained hrate)] at hle
    exact absurd hle (not_le.mpr hn')
  · rw [hpass]
    exact .sleeping _ (heq ▸ hrate) rfl (List.mem_append_right _ (List.mem_singleton_self _))
  · rw [hpass]
    exact .raised id _ (heq ▸ hrate)

/-- The first token check of a call for at most the capacity. -/
theorem checked_acquire {id : Nat} {n : ℤ}
    (h : step s (.acquire id n) now = some (s', record)) (hs : Default s) (hn : 0 < n)
    (hcapacity : n ≤ bucketCapacity) : Checked s n s' record := by
  cases (performed_of_step h).2 with
  | free hid hle => exact absurd hn (not_lt.mpr hle)
  | refused hid hcap =>
    rw [hs.capacity] at hcap
    exact absurd hcapacity (not_le.mpr hcap)
  | first hid => exact checked_passStep { s with clock := now, nextId := id + 1 } hs rfl id hn 0 now

/-- The token check of a call that has slept. -/
theorem checked_wake {w : Waiter}
    (h : step s (.wake w) now = some (s', record)) (hs : Default s) :
    Checked s w.n s' record := by
  cases (performed_of_step h).2 with
  | again hw =>
    exact checked_passStep { s with clock := now, waiting := s.waiting.erase w } hs rfl w.id
      (hs.waiting w hw) _ now

end SignalGateway.Proofs.RateLimit
