import SignalGateway.Proofs.RateLimit

/-!
# `SignalGateway.Proofs.EstimateWait`: `estimate_wait` predicts `acquire`

`estimate_wait` projects the tokens and divides the deficit without touching the scheduler.
`acquire` refills, and divides the deficit it finds then. `estimateWait_cases` and
`acquirePass_eq` say that both compute the same number.

`estimateWait_predicts` follows a call of `acquire` that nothing intervenes with: it gets its
tokens at once, or it sleeps once for the estimated time. The states it is about are those with
a positive refill rate, in which neither of the two raises. That the second pass finds the tokens
is `Bucket.le_level_of_wait`: at the deadline the level is exactly the number that is asked for.

The states of `estimateWait_predicts` are arbitrary: any number of tokens, any rate above zero and
any time since the last refill. `acquirePass_after_wait` is the one computation behind it, and the
rest follows the two calls.
-/

set_option autoImplicit false

namespace SignalGateway.Proofs.RateLimit

open SignalGateway.RateLimit TokenBucket

variable {s : Scheduler} {now : ℚ} {n : ℤ}

/-- The estimate is zero if the tokens are there, and otherwise the time that the rate needs for
the missing ones. -/
theorem estimateWait_cases (hrate : 0 < s.refillRate) (n : ℤ) (now : ℚ) :
    (n ≤ s.projected now ∧ s.estimateWait n now = .ok 0) ∨
      (¬ n ≤ s.projected now ∧
        s.estimateWait n now = .ok ((n - s.projected now) / s.refillRate)) := by
  simp only [Scheduler.estimateWait]
  by_cases hn : (n : ℚ) ≤ s.projected now
  · exact .inl ⟨hn, if_pos (sub_nonpos.mpr hn)⟩
  · rw [if_neg (not_le.mpr (sub_pos.mpr (not_le.mp hn)))]
    rcases waitFor_eq s (n - s.projected now) with ⟨-, hwait⟩ | ⟨hzero, -⟩
    · exact .inr ⟨hn, hwait⟩
    · exact absurd hzero hrate.ne'

/-- A pass of `acquire` grants the tokens when the estimate is zero, and otherwise sleeps for
the estimate. -/
theorem acquirePass_eq (hrate : 0 < s.refillRate) (n : ℤ) (now : ℚ) :
    ∃ wait, s.estimateWait n now = .ok wait ∧
      ((wait = 0 ∧ s.acquirePass n now = (.granted, granted s n now)) ∨
        (0 < wait ∧ wait = (n - s.projected now) / s.refillRate ∧
          s.acquirePass n now = (.sleep wait, s.refill now))) := by
  rcases estimateWait_cases hrate n now with ⟨hn, hestimate⟩ | ⟨hn, hestimate⟩
  · refine ⟨0, hestimate, .inl ⟨rfl, ?_⟩⟩
    rcases acquirePass_cases s n now with ⟨-, hpass⟩ | ⟨hlt, -⟩ | ⟨hlt, -⟩
    · exact hpass
    · exact absurd hn hlt
    · exact absurd hn hlt
  · have hwait : 0 < (n - s.projected now) / s.refillRate :=
      div_pos (sub_pos.mpr (not_le.mp hn)) hrate
    refine ⟨_, hestimate, .inr ⟨hwait, rfl, ?_⟩⟩
    rcases acquirePass_cases s n now with ⟨hle, -⟩ | ⟨-, -, hpass⟩ | ⟨-, hzero, -⟩
    · exact absurd hle hn
    · exact hpass
    · exact absurd hzero hrate.ne'

/-- A pass that runs when the estimated time is over, or later, grants the tokens. -/
theorem acquirePass_after_wait (hvalid : ValidAt s now) (hrate : 0 < s.refillRate)
    (hcap : n ≤ s.capacity) {wait : ℚ} (hwait : wait = (n - s.projected now) / s.refillRate)
    (hpos : 0 < wait) {t : ℚ} (ht : now + wait ≤ t) :
    (s.refill now).acquirePass n t = (.granted, granted (s.refill now) n t) := by
  have hrefill := validAt_refill hvalid
  have hlater : ValidAt (s.refill now) t := hrefill.mono (by linarith)
  have hlevel : (bucketOf (s.refill now)).level now = s.projected now := hrefill.level_last
  have hfits : (n : ℚ) ≤ (s.refill now).projected t := by
    rw [projected_eq_level hlater]
    refine Bucket.le_level_of_wait (t := now) hrate hcap ?_
    rw [hlevel]
    show now + (n - s.projected now) / s.refillRate ≤ t
    rwa [← hwait]
  rcases acquirePass_cases (s.refill now) n t with ⟨-, hpass⟩ | ⟨hlt, -⟩ | ⟨hlt, -⟩
  · exact hpass
  · exact absurd hfits hlt
  · exact absurd hfits hlt

/-- `estimate_wait` predicts `acquire`: a call of `acquire(n)` that nothing intervenes with gets
its tokens at once when the estimate is zero. Otherwise it sleeps once, however late the
sleep ends, and returns the estimate. -/
theorem estimateWait_predicts {s : System} {now : ℚ} (hvalid : ValidAt s.scheduler now)
    (hrate : 0 < s.scheduler.refillRate) (hclock : s.clock ≤ now) {id : Nat}
    (hid : s.nextId ≤ id) {n : ℤ} (hn : 0 < n) (hcap : n ≤ s.scheduler.capacity) :
    ∃ wait s₁ record, s.scheduler.estimateWait n now = .ok wait ∧
      step s (.acquire id n) now = some (s₁, record) ∧
      (wait = 0 ↔ record = .granted id n 0) ∧
      (wait ≠ 0 →
        ∃ waiter, record = .sleeping waiter ∧ waiter.deadline = now + wait ∧
          ∀ t, waiter.deadline ≤ t →
            ∃ s₂, step s₁ (.wake waiter) t = some (s₂, .granted id n wait)) := by
  have hfirst : step s (.acquire id n) now
      = some (passStep { s with clock := now, nextId := id + 1 } id n 0 now) := by
    simp [step, not_lt.mpr hclock, not_lt.mpr hid, not_le.mpr hn, not_lt.mpr hcap]
  obtain ⟨wait, hestimate, hpass⟩ := acquirePass_eq hrate n now
  rcases hpass with ⟨hzero, hgranted⟩ | ⟨hpos, hwait, hsleep⟩
  · refine ⟨wait, ⟨granted s.scheduler n now, s.waiting, id + 1, now⟩, .granted id n 0, hestimate,
      ?_, iff_of_true hzero rfl, fun hne => absurd hzero hne⟩
    rw [hfirst, passStep]
    simp only [hgranted]
  · -- The call falls asleep, and the first pass behind its deadline finds the tokens.
    let waiter : Waiter := ⟨id, n, now + wait, wait, 0⟩
    let s₁ : System := ⟨s.scheduler.refill now, s.waiting ++ [waiter], id + 1, now⟩
    refine ⟨wait, s₁, .sleeping waiter, hestimate, ?_, iff_of_false hpos.ne' (by simp),
      fun _ => ⟨waiter, rfl, rfl, fun t ht => ?_⟩⟩
    · rw [hfirst, passStep]
      simp only [hsleep]
      rfl
    · have hdeadline : now + wait ≤ t := ht
      have hlater : ¬ t < now := by linarith
      have hmem : waiter ∈ s₁.waiting := List.mem_append_right _ (List.mem_singleton_self _)
      have hwake := acquirePass_after_wait hvalid hrate hcap hwait hpos ht
      refine ⟨⟨granted s₁.scheduler n t, s₁.waiting.erase waiter, id + 1, t⟩, ?_⟩
      simp only [step, s₁, if_neg hlater]
      rw [if_pos ⟨hmem, ht⟩, passStep]
      simp only [waiter, hwake, zero_add]

/-- A batch of 32 files that meets 22 tokens. -/
theorem estimateWait_predicts_fullBatch :
    let s : System := ⟨⟨bucketCapacity, 20, 1 / defaultRetryAfterSeconds, 0⟩, [], 0, 0⟩
    ∃ wait s₁ record, s.scheduler.estimateWait 32 8 = .ok wait ∧
      step s (.acquire 0 32) 8 = some (s₁, record) ∧
      (wait = 0 ↔ record = .granted 0 32 0) ∧
      (wait ≠ 0 →
        ∃ waiter, record = .sleeping waiter ∧ waiter.deadline = 8 + wait ∧
          ∀ t, waiter.deadline ≤ t →
            ∃ s₂, step s₁ (.wake waiter) t = some (s₂, .granted 0 32 wait)) := by
  have hrate : 0 < 1 / defaultRetryAfterSeconds := by norm_num [defaultRetryAfterSeconds]
  have hvalid : ValidAt ⟨bucketCapacity, 20, 1 / defaultRetryAfterSeconds, 0⟩ 8 :=
    ⟨by norm_num [bucketOf], by norm_num [bucketOf, bucketCapacity], hrate.le,
      by norm_num [bucketOf]⟩
  exact estimateWait_predicts hvalid hrate (by norm_num) le_rfl (by norm_num)
    (by norm_num [bucketCapacity])

end SignalGateway.Proofs.RateLimit
