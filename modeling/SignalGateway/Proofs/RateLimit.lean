import SignalGateway.RateLimit
import SignalGateway.Lib.TokenBucket

/-!
# `SignalGateway.Proofs.RateLimit`: the scheduler is a token bucket

`bucketOf` reads a scheduler as a `TokenBucket.Bucket`. The projected tokens are the level
of the bucket (`projected_eq_level`), and `step_bucket` is the step lemma: an event takes out
of the level what it grants. So the trace of a run is a chain of bucket operations
(`chain_run`), and `TokenBucket.granted_le` bounds what the scheduler grants in a window
(`token_bucket_safety`).

There are three levels:

* `Takes` is what one operation of the scheduler does to the bucket. There is one lemma for each
  operation: `takes_granted`, `takes_refill`, `takes_feedback`, `takes_reportRpcDuration`.
* `Performed` lists what an event does to the system: which operation it is, for whom.
  `step_bucket` follows from it.
* `chain_run` and `refillRate_pos_run` are the inductions over a run.

A rate limit sets the refill rate. With a rational hint the rate stays positive
(`refillRate_pos_run`). With an infinite one it becomes zero, and this is not excluded anywhere
else in the module.
-/

set_option autoImplicit false

namespace SignalGateway.Proofs.RateLimit

open SignalGateway.RateLimit TokenBucket

/-- The scheduler as a bucket. -/
def bucketOf (s : Scheduler) : Bucket ℚ := ⟨s.capacity, s.tokens, s.refillRate, s.lastRefill⟩

/-- The tokens a record hands out. -/
def grantedBy : Record → ℚ
  | .granted _ n _ => n
  | _ => 0

/-- A snapshot as a bucket operation. -/
def entryOf (snapshot : Snapshot) : Entry ℚ :=
  ⟨snapshot.1.clock, grantedBy snapshot.2, bucketOf snapshot.1.scheduler⟩

/-- The refill rate at time `t`, in a run from `s` with the given trace. -/
def refillRateAt (s : System) (trace : List Snapshot) (t : ℚ) : ℚ :=
  rateAt (bucketOf s.scheduler) (trace.map entryOf) t

/-- The sum of the `n` of all calls granted from `t₁` to `t₂`. -/
def grantedBetween (t₁ t₂ : ℚ) (trace : List Snapshot) : ℚ :=
  grantedIn t₁ t₂ (trace.map entryOf)

/-! ### The operations -/

section
variable {s : Scheduler} {now : ℚ}

/-- A scheduler that can be met at time `now`. -/
abbrev ValidAt (s : Scheduler) (now : ℚ) : Prop := (bucketOf s).Valid now

/-- The projected tokens are the level of the bucket. -/
theorem projected_eq_level (h : ValidAt s now) :
    s.projected now = (bucketOf s).level now := by
  have hlast : s.lastRefill ≤ now := h.last_le
  have hrate : 0 ≤ s.refillRate := h.rate_nonneg
  have htokens : s.tokens ≤ s.capacity := h.tokens_le
  show _ = min s.capacity (s.tokens + (now - s.lastRefill) * s.refillRate)
  simp only [Scheduler.projected]
  split
  · rfl
  · rename_i hidle
    rcases not_and_or.mp hidle with helapsed | hfull
    · have hzero : now - s.lastRefill = 0 := by linarith
      rw [hzero, zero_mul, add_zero, min_eq_right htokens]
    · have hcap : s.tokens = s.capacity := le_antisymm htokens (not_lt.mp hfull)
      have hgain : 0 ≤ (now - s.lastRefill) * s.refillRate :=
        mul_nonneg (by linarith) hrate
      rw [hcap, min_eq_left (by linarith)]

/-- A refill keeps a valid scheduler valid. -/
theorem validAt_refill (h : ValidAt s now) : ValidAt (s.refill now) now where
  tokens_nonneg := by
    show 0 ≤ s.projected now
    rw [projected_eq_level h]
    exact h.level_nonneg
  tokens_le := by
    show s.projected now ≤ s.capacity
    rw [projected_eq_level h]
    exact Bucket.level_le_capacity
  rate_nonneg := h.rate_nonneg
  last_le := le_rfl

/-- The bucket after an operation at time `now` that granted `g`. -/
structure Takes (s s' : Scheduler) (g now : ℚ) : Prop where
  valid : ValidAt s' now
  capacity_eq : s'.capacity = s.capacity
  level_le : g + (bucketOf s').level now ≤ (bucketOf s).level now

/-- Doing nothing takes nothing. -/
theorem takes_self (h : ValidAt s now) {g : ℚ} (hg : g ≤ 0) : Takes s s g now :=
  ⟨h, rfl, by linarith⟩

/-- An operation that restarts the clock takes the difference in tokens. -/
theorem takes_of_restart {s' : Scheduler} {g : ℚ} (hvalid : ValidAt s' now)
    (hlast : s'.lastRefill = now) (hcap : s'.capacity = s.capacity)
    (hle : g + s'.tokens ≤ (bucketOf s).level now) : Takes s s' g now := by
  subst hlast
  refine ⟨hvalid, hcap, ?_⟩
  have hlevel : (bucketOf s').level s'.lastRefill = s'.tokens := hvalid.level_last
  rwa [hlevel]

/-- A wait is computed unless the rate is zero. -/
theorem waitFor_eq (s : Scheduler) (deficit : ℚ) :
    (s.refillRate ≠ 0 ∧ s.waitFor deficit = .ok (deficit / s.refillRate)) ∨
      (s.refillRate = 0 ∧ s.waitFor deficit = .error .zeroDivisionError) := by
  unfold Scheduler.waitFor
  by_cases hrate : s.refillRate = 0
  · exact .inr ⟨hrate, if_pos hrate⟩
  · exact .inl ⟨hrate, if_neg hrate⟩

/-- The scheduler when a pass has granted `n` tokens. -/
def granted (s : Scheduler) (n : ℤ) (now : ℚ) : Scheduler :=
  { s.refill now with tokens := s.projected now - n }

/-- A pass of `acquire` grants the tokens if they are there. Otherwise it sleeps, or the rate is
zero and the division raises. -/
theorem acquirePass_cases (s : Scheduler) (n : ℤ) (now : ℚ) :
    (n ≤ s.projected now ∧ s.acquirePass n now = (.granted, granted s n now)) ∨
      (¬ n ≤ s.projected now ∧ s.refillRate ≠ 0 ∧ s.acquirePass n now
        = (.sleep ((n - s.projected now) / s.refillRate), s.refill now)) ∨
      (¬ n ≤ s.projected now ∧ s.refillRate = 0 ∧ s.acquirePass n now
        = (.raised .zeroDivisionError, s.refill now)) := by
  have htokens : (s.refill now).tokens = s.projected now := rfl
  have hrefilled : (s.refill now).refillRate = s.refillRate := rfl
  simp only [Scheduler.acquirePass, htokens]
  by_cases hn : (n : ℚ) ≤ s.projected now
  · rw [if_pos hn]
    exact .inl ⟨hn, rfl⟩
  · rw [if_neg hn]
    rcases waitFor_eq (s.refill now) (n - s.projected now) with ⟨hrate, hwait⟩ | ⟨hrate, hwait⟩
    · rw [hwait]
      exact .inr (.inl ⟨hn, hrate, rfl⟩)
    · rw [hwait]
      exact .inr (.inr ⟨hn, hrate, rfl⟩)

/-- A pass that grants takes the tokens. -/
theorem takes_granted (h : ValidAt s now) {n : ℤ} (hn : 0 < n) (hle : n ≤ s.projected now) :
    Takes s (granted s n now) n now := by
  have hrefill := validAt_refill h
  have hn' : (0 : ℚ) < n := by exact_mod_cast hn
  have hcap : s.projected now - n ≤ s.capacity := by
    have : s.projected now ≤ s.capacity := hrefill.tokens_le
    linarith
  refine takes_of_restart ⟨sub_nonneg.mpr hle, hcap, h.rate_nonneg, le_rfl⟩ rfl rfl ?_
  show (n : ℚ) + (s.projected now - n) ≤ _
  rw [projected_eq_level h]
  linarith

/-- A pass that does not grant only refills. -/
theorem takes_refill (h : ValidAt s now) : Takes s (s.refill now) 0 now := by
  refine takes_of_restart (validAt_refill h) rfl rfl ?_
  show 0 + s.projected now ≤ _
  rw [zero_add, projected_eq_level h]

/-- Restarting the clock only gives up tokens. -/
theorem takes_reportRpcDuration (h : ValidAt s now) (rpcDuration : ℚ) (nAttachments : ℤ) :
    Takes s (s.reportRpcDuration rpcDuration nAttachments now) 0 now := by
  unfold Scheduler.reportRpcDuration
  split
  · exact takes_self h le_rfl
  · refine takes_of_restart ⟨h.tokens_nonneg, h.tokens_le, h.rate_nonneg, le_rfl⟩ rfl rfl ?_
    rw [zero_add]
    exact h.tokens_le_level

/-- The rate of a hint is zero only for the infinite hint. -/
theorem newRate_cases {hint : PyFloat} {rate : ℚ} (h : Scheduler.newRate hint = some rate) :
    0 < rate ∨ (hint = .inf ∧ rate = 0) := by
  cases hint with
  | finite seconds bound =>
    simp only [Scheduler.newRate] at h
    split at h
    · next hpos =>
      cases h
      exact .inl (one_div_pos.mpr hpos)
    · cases h
  | inf =>
    cases h
    exact .inr ⟨rfl, rfl⟩
  | negInf => cases h
  | nan => cases h

/-- The rate after feedback: the old one, or that of the hint. -/
theorem refillRate_feedback (s : Scheduler) (retryAfter : Option PyFloat) (nAttempted : ℤ)
    (now : ℚ) :
    (s.feedback retryAfter nAttempted now).refillRate = s.refillRate ∨
      ∃ hint, retryAfter = some hint ∧
        Scheduler.newRate hint = some (s.feedback retryAfter nAttempted now).refillRate := by
  simp only [Scheduler.feedback]
  cases retryAfter with
  | none => exact .inl rfl
  | some hint =>
    cases hrate : Scheduler.newRate hint with
    | none =>
      refine .inl ?_
      rw [Option.bind_some, hrate]
      rfl
    | some rate =>
      refine .inr ⟨hint, rfl, ?_⟩
      rw [Option.bind_some, hrate]
      rfl

/-- Feedback empties the bucket, whatever the new rate. -/
theorem takes_feedback (h : ValidAt s now) (retryAfter : Option PyFloat) (nAttempted : ℤ) :
    Takes s (s.feedback retryAfter nAttempted now) 0 now := by
  have hcap : 0 ≤ s.capacity := h.tokens_nonneg.trans h.tokens_le
  have hrate : 0 ≤ (s.feedback retryAfter nAttempted now).refillRate := by
    rcases refillRate_feedback s retryAfter nAttempted now with hsame | ⟨hint, -, hnew⟩
    · rw [hsame]
      exact h.rate_nonneg
    · rcases newRate_cases hnew with hpos | ⟨-, hzero⟩
      · exact hpos.le
      · exact hzero.ge
  refine takes_of_restart ⟨le_rfl, hcap, hrate, le_rfl⟩ rfl rfl ?_
  show (0 : ℚ) + 0 ≤ _
  rw [zero_add]
  exact h.level_nonneg

end

/-! ### Events and runs -/

/-- The sleeping calls asked for a positive number of tokens. -/
def WaitersPos (s : System) : Prop := ∀ w ∈ s.waiting, 0 < w.n

/-- A pass of `acquire` in a run. -/
theorem passStep_cases (s : System) (id : Nat) (n : ℤ) (totalSlept now : ℚ) :
    (n ≤ s.scheduler.projected now ∧ passStep s id n totalSlept now
      = ({ s with scheduler := granted s.scheduler n now }, .granted id n totalSlept)) ∨
    (∃ w : Waiter, ¬ n ≤ s.scheduler.projected now ∧ s.scheduler.refillRate ≠ 0 ∧
      w = ⟨id, n, now + (n - s.scheduler.projected now) / s.scheduler.refillRate,
        (n - s.scheduler.projected now) / s.scheduler.refillRate, totalSlept⟩ ∧
      passStep s id n totalSlept now = ({ s with scheduler := s.scheduler.refill now
                                                 waiting := s.waiting ++ [w] }, .sleeping w)) ∨
    (¬ n ≤ s.scheduler.projected now ∧ s.scheduler.refillRate = 0 ∧
      passStep s id n totalSlept now = ({ s with scheduler := s.scheduler.refill now },
        .raised id n .zeroDivisionError)) := by
  unfold passStep
  rcases acquirePass_cases s.scheduler n now with
    ⟨hn, hpass⟩ | ⟨hn, hrate, hpass⟩ | ⟨hn, hrate, hpass⟩
  · rw [hpass]
    exact .inl ⟨hn, rfl⟩
  · rw [hpass]
    exact .inr (.inl ⟨_, hn, hrate, rfl, rfl⟩)
  · rw [hpass]
    exact .inr (.inr ⟨hn, hrate, rfl⟩)

/-- A pass takes out of the bucket what it grants. -/
theorem passStep_bucket {s : System} {now : ℚ} (hvalid : ValidAt s.scheduler now)
    (hpos : WaitersPos s) (id : Nat) {n : ℤ} (hn : 0 < n) (totalSlept : ℚ) :
    (passStep s id n totalSlept now).1.clock = s.clock ∧
      WaitersPos (passStep s id n totalSlept now).1 ∧
      Takes s.scheduler (passStep s id n totalSlept now).1.scheduler
        (grantedBy (passStep s id n totalSlept now).2) now := by
  rcases passStep_cases s id n totalSlept now with
    ⟨hle, hpass⟩ | ⟨w, -, -, rfl, hpass⟩ | ⟨-, -, hpass⟩
  · rw [hpass]
    exact ⟨rfl, hpos, takes_granted hvalid hn hle⟩
  · rw [hpass]
    refine ⟨rfl, fun w hw => ?_, takes_refill hvalid⟩
    rcases List.mem_append.mp hw with hw | hw
    · exact hpos w hw
    · rw [List.mem_singleton.mp hw]
      exact hn
  · rw [hpass]
    exact ⟨rfl, hpos, takes_refill hvalid⟩

/-- What an event does at time `now`. -/
inductive Performed (s : System) (now : ℚ) : Event → System → Record → Prop where
  /-- A call for no tokens is granted. -/
  | free {id : Nat} {n : ℤ} (hid : s.nextId ≤ id) (hn : n ≤ 0) :
      Performed s now (.acquire id n) { s with clock := now, nextId := id + 1 } (.granted id n 0)
  /-- A call for more than the capacity is refused. -/
  | refused {id : Nat} {n : ℤ} (hid : s.nextId ≤ id) (hcap : s.scheduler.capacity < n) :
      Performed s now (.acquire id n) { s with clock := now, nextId := id + 1 }
        (.schedulerError id n)
  /-- The first pass of a call. -/
  | first {id : Nat} {n : ℤ} (hid : s.nextId ≤ id) (hn : 0 < n) (hcap : n ≤ s.scheduler.capacity) :
      Performed s now (.acquire id n)
        (passStep { s with clock := now, nextId := id + 1 } id n 0 now).1
        (passStep { s with clock := now, nextId := id + 1 } id n 0 now).2
  /-- The pass of a call that has slept. -/
  | again {w : Waiter} (hmem : w ∈ s.waiting) :
      Performed s now (.wake w)
        (passStep { s with clock := now, waiting := s.waiting.erase w } w.id w.n
          (w.totalSlept + w.wait) now).1
        (passStep { s with clock := now, waiting := s.waiting.erase w } w.id w.n
          (w.totalSlept + w.wait) now).2
  | feedback (retryAfter : Option PyFloat) (nAttempted : ℤ) :
      Performed s now (.feedback retryAfter nAttempted)
        { s with clock := now, scheduler := s.scheduler.feedback retryAfter nAttempted now } .returned
  | reported (rpcDuration : ℚ) (nAttachments : ℤ) :
      Performed s now (.reportRpcDuration rpcDuration nAttachments)
        { s with clock := now
                 scheduler := s.scheduler.reportRpcDuration rpcDuration nAttachments now } .returned
  | estimated (n : ℤ) :
      Performed s now (.estimateWait n) { s with clock := now }
        (.estimated (s.scheduler.estimateWait n now))
  | state : Performed s now .state { s with clock := now } (.reported (s.scheduler.state now))

/-- What a step performs. -/
theorem performed_of_step {s s' : System} {event : Event} {now : ℚ} {record : Record}
    (hstep : step s event now = some (s', record)) :
    s.clock ≤ now ∧ Performed s now event s' record := by
  unfold step at hstep
  -- Events do not go back in time.
  split at hstep
  · cases hstep
  · next hnow =>
    refine ⟨not_lt.mp hnow, ?_⟩
    cases event with
    | acquire id n =>
      simp only at hstep
      split at hstep
      · cases hstep
      · next hid =>
        have hid := not_lt.mp hid
        split at hstep
        · next hn =>
          cases hstep
          exact .free hid hn
        · next hn =>
          split at hstep
          · next hcap =>
            cases hstep
            exact .refused hid hcap
          · next hcap =>
            have hpass := Option.some.inj hstep
            obtain rfl := congrArg Prod.fst hpass
            obtain rfl := congrArg Prod.snd hpass
            exact .first hid (not_le.mp hn) (not_lt.mp hcap)
    | wake w =>
      simp only at hstep
      split at hstep
      · next hw =>
        have hpass := Option.some.inj hstep
        obtain rfl := congrArg Prod.fst hpass
        obtain rfl := congrArg Prod.snd hpass
        exact .again hw.1
      · cases hstep
    | feedback retryAfter nAttempted =>
      cases hstep
      exact .feedback retryAfter nAttempted
    | reportRpcDuration rpcDuration nAttachments =>
      cases hstep
      exact .reported rpcDuration nAttachments
    | estimateWait n =>
      cases hstep
      exact .estimated n
    | state =>
      cases hstep
      exact .state

/-- One event takes out of the bucket what it grants. -/
theorem step_bucket {s s' : System} {event : Event} {now : ℚ} {record : Record}
    (hstep : step s event now = some (s', record)) (hvalid : ValidAt s.scheduler s.clock)
    (hpos : WaitersPos s) :
    s.clock ≤ now ∧ s'.clock = now ∧ WaitersPos s' ∧
      Takes s.scheduler s'.scheduler (grantedBy record) now := by
  obtain ⟨hle, hperformed⟩ := performed_of_step hstep
  have hvalid' : ValidAt s.scheduler now := hvalid.mono hle
  refine ⟨hle, ?_⟩
  cases hperformed with
  | @free id n hid hn =>
    have hn' : (n : ℚ) ≤ 0 := by exact_mod_cast hn
    exact ⟨rfl, hpos, takes_self hvalid' hn'⟩
  | refused hid hcap => exact ⟨rfl, hpos, takes_self hvalid' le_rfl⟩
  | @first id n hid hn hcap =>
    exact passStep_bucket (s := { s with clock := now, nextId := id + 1 }) hvalid' hpos id hn 0
  | @again w hmem =>
    -- The call leaves the sleeping ones and runs its next pass.
    have hrest : WaitersPos ⟨s.scheduler, s.waiting.erase w, s.nextId, now⟩ :=
      fun other hother => hpos other (List.mem_of_mem_erase hother)
    exact passStep_bucket (s := ⟨s.scheduler, s.waiting.erase w, s.nextId, now⟩)
      hvalid' hrest w.id (hpos w hmem) (w.totalSlept + w.wait)
  | feedback retryAfter nAttempted =>
    exact ⟨rfl, hpos, takes_feedback hvalid' retryAfter nAttempted⟩
  | reported rpcDuration nAttachments =>
    exact ⟨rfl, hpos, takes_reportRpcDuration hvalid' rpcDuration nAttachments⟩
  | estimated n => exact ⟨rfl, hpos, takes_self hvalid' le_rfl⟩
  | state => exact ⟨rfl, hpos, takes_self hvalid' le_rfl⟩

/-- A pass keeps the capacity, and it refuses no call. -/
theorem capacity_passStep (s : System) (id : Nat) (n : ℤ) (slept now : ℚ) :
    (passStep s id n slept now).1.scheduler.capacity = s.scheduler.capacity ∧
      ∀ id' n', (passStep s id n slept now).2 ≠ .schedulerError id' n' := by
  rcases passStep_cases s id n slept now with ⟨-, hpass⟩ | ⟨w, -, -, -, hpass⟩ | ⟨-, -, hpass⟩
  · rw [hpass]
    exact ⟨rfl, fun _ _ h => by cases h⟩
  · rw [hpass]
    exact ⟨rfl, fun _ _ h => by cases h⟩
  · rw [hpass]
    exact ⟨rfl, fun _ _ h => by cases h⟩

/-- The capacity does not change, and a call is refused only if it asks for more. -/
theorem capacity_step {s s' : System} {event : Event} {now : ℚ} {record : Record}
    (hstep : step s event now = some (s', record)) :
    s'.scheduler.capacity = s.scheduler.capacity ∧
      ∀ id n, record = .schedulerError id n → s.scheduler.capacity < n := by
  cases (performed_of_step hstep).2 with
  | free hid hn => exact ⟨rfl, fun _ _ h => by cases h⟩
  | refused hid hcap =>
    refine ⟨rfl, fun id' n' h => ?_⟩
    cases h
    exact hcap
  | @first id n hid hn hcap =>
    obtain ⟨hcapacity, hrecord⟩ :=
      capacity_passStep { s with clock := now, nextId := id + 1 } id n 0 now
    exact ⟨hcapacity, fun id' n' h => absurd h (hrecord id' n')⟩
  | @again w hmem =>
    obtain ⟨hcapacity, hrecord⟩ := capacity_passStep
      { s with clock := now, waiting := s.waiting.erase w } w.id w.n (w.totalSlept + w.wait) now
    exact ⟨hcapacity, fun id' n' h => absurd h (hrecord id' n')⟩
  | feedback retryAfter nAttempted => exact ⟨rfl, fun _ _ h => by cases h⟩
  | reported rpcDuration nAttachments =>
    refine ⟨?_, fun _ _ h => by cases h⟩
    -- only the time of the last refill changes, if anything does
    unfold Scheduler.reportRpcDuration
    split <;> rfl
  | estimated n => exact ⟨rfl, fun _ _ h => by cases h⟩
  | state => exact ⟨rfl, fun _ _ h => by cases h⟩

/-- The trace of a run is a chain of bucket operations. -/
theorem chain_run :
    ∀ {events : List (Event × ℚ)} {s : System} {trace : List Snapshot},
      run s events = some trace → ValidAt s.scheduler s.clock → WaitersPos s →
      Chain (bucketOf s.scheduler) s.clock (trace.map entryOf) := by
  intro events
  induction events with
  | nil =>
    intro s trace hrun _ _
    obtain rfl : [] = trace := Option.some.inj hrun
    trivial
  | cons e events ih =>
    obtain ⟨event, now⟩ := e
    intro s trace hrun hvalid hpos
    simp only [run, Option.bind_eq_bind, Option.bind_eq_some_iff, Prod.exists,
      Option.some.injEq] at hrun
    obtain ⟨s₁, record, hstep, rest, hrest, rfl⟩ := hrun
    obtain ⟨hle, rfl, hpos₁, htakes⟩ := step_bucket hstep hvalid hpos
    exact ⟨hle, htakes.valid, htakes.capacity_eq, htakes.level_le, ih hrest htakes.valid hpos₁⟩

/-! ### The rate -/

/-- The hint of a `feedback` is a rational number, or is not used. -/
def RationalHint : Event → Prop
  | .feedback (some hint) _ => hint ≠ .inf
  | _ => True

/-- A pass keeps the rate. -/
theorem refillRate_passStep (s : System) (id : Nat) (n : ℤ) (slept now : ℚ) :
    (passStep s id n slept now).1.scheduler.refillRate = s.scheduler.refillRate := by
  rcases passStep_cases s id n slept now with ⟨-, hpass⟩ | ⟨w, -, -, -, hpass⟩ | ⟨-, -, hpass⟩
  · rw [hpass]
    rfl
  · rw [hpass]
    rfl
  · rw [hpass]
    rfl

/-- Only feedback changes the rate. -/
theorem refillRate_step {s s' : System} {event : Event} {now : ℚ} {record : Record}
    (hstep : step s event now = some (s', record)) :
    s'.scheduler.refillRate = s.scheduler.refillRate ∨
      ∃ hint nAttempted, event = .feedback (some hint) nAttempted ∧
        Scheduler.newRate hint = some s'.scheduler.refillRate := by
  cases (performed_of_step hstep).2 with
  | free hid hn => exact .inl rfl
  | refused hid hcap => exact .inl rfl
  | first hid hn hcap => exact .inl (refillRate_passStep _ _ _ _ _)
  | again hmem => exact .inl (refillRate_passStep _ _ _ _ _)
  | feedback retryAfter nAttempted =>
    rcases refillRate_feedback s.scheduler retryAfter nAttempted now with
      hsame | ⟨hint, rfl, hnew⟩
    · exact .inl hsame
    · exact .inr ⟨hint, nAttempted, rfl, hnew⟩
  | reported rpcDuration nAttachments =>
    refine .inl ?_
    unfold Scheduler.reportRpcDuration
    split <;> rfl
  | estimated n => exact .inl rfl
  | state => exact .inl rfl

/-- With rational hints the rate stays positive. -/
theorem refillRate_pos_run : ∀ {events : List (Event × ℚ)} {s : System} {trace : List Snapshot},
    run s events = some trace → 0 < s.scheduler.refillRate →
      (∀ e ∈ events, RationalHint e.1) →
      ∀ snapshot ∈ trace, 0 < snapshot.1.scheduler.refillRate := by
  intro events
  induction events with
  | nil =>
    intro s trace hrun _ _ snapshot hmem
    obtain rfl : [] = trace := Option.some.inj hrun
    exact absurd hmem List.not_mem_nil
  | cons e events ih =>
    obtain ⟨event, now⟩ := e
    intro s trace hrun hrate hhints snapshot hmem
    simp only [run, Option.bind_eq_bind, Option.bind_eq_some_iff, Prod.exists,
      Option.some.injEq] at hrun
    obtain ⟨s₁, record, hstep, rest, hrest, rfl⟩ := hrun
    obtain ⟨hhint, hhints⟩ := List.forall_mem_cons.mp hhints
    -- A new rate is zero only for the infinite hint.
    have hrate₁ : 0 < s₁.scheduler.refillRate := by
      rcases refillRate_step hstep with hsame | ⟨hint, nAttempted, rfl, hnew⟩
      · rw [hsame]
        exact hrate
      · exact (newRate_cases hnew).resolve_right fun hinf => hhint hinf.1
    rcases List.mem_cons.mp hmem with rfl | hmem
    · exact hrate₁
    · exact ih hrest hrate₁ hhints snapshot hmem

/-- Token-bucket safety: in every run of a fresh scheduler the tokens stay between zero and
the capacity. The rate stays positive as long as the hints are rational. In a window in which the
rate is at most `r` the calls of `acquire` get at most the capacity plus `r` times the length of
the window. -/
theorem token_bucket_safety {capacity defaultRetryAfter t₀ : ℚ} (hcapacity : 0 < capacity)
    (hretry : 0 < defaultRetryAfter) {events : List (Event × ℚ)} {trace : List Snapshot}
    (hrun : run (.create capacity defaultRetryAfter t₀) events = some trace) :
    (∀ s ∈ System.create capacity defaultRetryAfter t₀ :: trace.map Prod.fst,
      0 ≤ s.scheduler.tokens ∧ s.scheduler.tokens ≤ capacity ∧ s.scheduler.capacity = capacity ∧
        0 ≤ s.scheduler.refillRate ∧
        ((∀ e ∈ events, RationalHint e.1) → 0 < s.scheduler.refillRate)) ∧
    ∀ t₁ t₂ r : ℚ, t₁ ≤ t₂ →
      (∀ t, t₁ ≤ t → t ≤ t₂ →
        refillRateAt (.create capacity defaultRetryAfter t₀) trace t ≤ r) →
      grantedBetween t₁ t₂ trace ≤ capacity + r * (t₂ - t₁) := by
  have hrate : 0 < (System.create capacity defaultRetryAfter t₀).scheduler.refillRate :=
    one_div_pos.mpr hretry
  have hvalid : ValidAt (System.create capacity defaultRetryAfter t₀).scheduler t₀ :=
    ⟨hcapacity.le, le_rfl, hrate.le, le_rfl⟩
  -- The run is a chain of bucket operations, and both parts are facts about such chains.
  have hchain := chain_run hrun hvalid (by simp [WaitersPos, System.create])
  refine ⟨?_, ?_⟩
  · intro s hs
    rcases List.mem_cons.mp hs with rfl | hs
    · exact ⟨hcapacity.le, le_rfl, rfl, hrate.le, fun _ => hrate⟩
    · obtain ⟨snapshot, hsnapshot, rfl⟩ := List.mem_map.mp hs
      obtain ⟨hafter, hcap⟩ := hchain.valid_of_mem _ (List.mem_map_of_mem hsnapshot)
      have hcap' : snapshot.1.scheduler.capacity = capacity := hcap
      refine ⟨hafter.tokens_nonneg, ?_, hcap', hafter.rate_nonneg, fun hhints =>
        refillRate_pos_run hrun hrate hhints snapshot hsnapshot⟩
      rw [← hcap']
      exact hafter.tokens_le
  · intro t₁ t₂ r h hbound
    exact granted_le hvalid hchain h hbound

/-- Two sends of thirty attachments against a bucket of fifty: the second one sleeps. -/
def twoSends : List (Event × ℚ) :=
  [(.acquire 0 30, 0), (.acquire 1 30, 1), (.feedback (some (.ofRat 2)) 30, 5)]

/-- The law for two sends in a row. -/
theorem token_bucket_safety_two_sends :
    ∃ trace, run (.create bucketCapacity defaultRetryAfterSeconds 0) twoSends = some trace ∧
      (∀ s ∈ System.create bucketCapacity defaultRetryAfterSeconds 0 :: trace.map Prod.fst,
        0 ≤ s.scheduler.tokens ∧ s.scheduler.tokens ≤ bucketCapacity ∧
          s.scheduler.capacity = bucketCapacity ∧ 0 < s.scheduler.refillRate) ∧
      ∀ t₁ t₂ r : ℚ, t₁ ≤ t₂ →
        (∀ t, t₁ ≤ t → t ≤ t₂ →
          refillRateAt (.create bucketCapacity defaultRetryAfterSeconds 0) trace t ≤ r) →
        grantedBetween t₁ t₂ trace ≤ bucketCapacity + r * (t₂ - t₁) := by
  obtain ⟨trace, hrun⟩ := Option.isSome_iff_exists.mp
    (show (run (.create bucketCapacity defaultRetryAfterSeconds 0) twoSends).isSome = true by
      decide +kernel)
  have hcapacity : 0 < bucketCapacity := by norm_num [bucketCapacity]
  have hretry : 0 < defaultRetryAfterSeconds := by norm_num [defaultRetryAfterSeconds]
  have hhint : PyFloat.ofRat 2 ≠ .inf := by decide +kernel
  have hhints : ∀ e ∈ twoSends, RationalHint e.1 := by
    simpa [twoSends, RationalHint] using hhint
  obtain ⟨hstates, hwindows⟩ := token_bucket_safety hcapacity hretry hrun
  refine ⟨trace, hrun, fun s hs => ?_, hwindows⟩
  obtain ⟨htokens, hle, hcap, -, hrate⟩ := hstates s hs
  exact ⟨htokens, hle, hcap, hrate hhints⟩

end SignalGateway.Proofs.RateLimit
