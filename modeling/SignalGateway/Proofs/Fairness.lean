import SignalGateway.Proofs.RateLimit

/-!
# `SignalGateway.Proofs.Fairness`: in which order calls are granted

Calls of `acquire` are numbered in the order of their first token checks. `Fifo` says that
they are granted in this order. The lock does not give it: a call that sleeps holds no lock,
and a later call can find enough tokens in the meantime (`not_fifo_overtakenEvents`).

`Orderly` is a condition on the arrivals, the sizes, the wake-ups and the hints of a run under
which the order is kept (`fifo_of_orderly`). A call may check the bucket while an earlier one
sleeps, if it comes early enough for its size. The sleeper's tokens are there at its deadline at
the earliest. Counted back from there, at the rate of the bucket, the tokens of the later call
must not be there yet. A feedback that raises the rate makes the deadline of a sleeper worthless,
so no later call may check during the rest of this sleep.

* `step_cases` says once what an event does to the sleeping calls.
* `new_or_waiting`: a call that is granted in a run is new, or sleeps when the run starts.
* `fifo_run`: the order is lost only where a call finds enough tokens while an earlier one sleeps
  that is granted later.
* `Timed` is the invariant: the level of the bucket, counted up to the deadline of a sleeper,
  is at most what the sleeper asks for. `timed_step` is its step lemma, and with it an orderly
  check finds too few tokens (`not_le_of_inTurn`).

The other direction does not hold for single runs: a call that breaks the condition may fail to
find its tokens for another reason. `overtakenEvents` is a run that breaks it and loses the order.
-/

set_option autoImplicit false

namespace SignalGateway.Proofs.RateLimit

open SignalGateway.RateLimit TokenBucket

/-- A call of `acquire` that checks the bucket, and the tokens it asks for. -/
def tokenCheck (s : System) : Event → Option (Nat × ℤ)
  | .acquire id n => if 0 < n ∧ n ≤ s.scheduler.capacity then some (id, n) else none
  | .wake waiter => some (waiter.id, waiter.n)
  | .feedback _ _ | .reportRpcDuration _ _ | .estimateWait _ | .state => none

/-- A call that checks the bucket while an earlier one sleeps comes early enough for its size:
counted back from the deadline of the sleeper, its tokens are not there yet. During the sleep the
rate was not raised. The sleeps in which it was are `hurried`. -/
def InTurn (hurried : List Waiter) (s : System) (event : Event) (now : ℚ) : Prop :=
  ∀ check ∈ tokenCheck s event, ∀ w ∈ s.waiting, w.id < check.1 →
    w ∉ hurried ∧ (w.n : ℚ) < check.2 + (w.deadline - now) * s.scheduler.refillRate

/-- The sleeps during which the rate was raised. -/
def hurriedBy (s s' : System) (hurried : List Waiter) : List Waiter :=
  if s.scheduler.refillRate < s'.scheduler.refillRate then s.waiting ++ hurried else hurried

/-- All checks of a run are in turn. -/
def Orderly : List Waiter → System → List (Event × ℚ) → List Snapshot → Prop
  | hurried, s, (event, now) :: events, (s', _) :: trace =>
      InTurn hurried s event now ∧ Orderly (hurriedBy s s' hurried) s' events trace
  | _, _, _, _ => True

/-! ### What an event does -/

/-- How a token check ends for the call `id`, next to the other calls that sleep. -/
inductive CheckEnd (s s' : System) (now : ℚ) (id : Nat) (n : ℤ) (others : List Waiter) :
    Record → Prop where
  | granted (slept : ℚ) (hn : n ≤ s.scheduler.projected now) (hwaiting : s'.waiting = others) :
      CheckEnd s s' now id n others (.granted id n slept)
  | sleeping (w : Waiter) (hn : ¬ n ≤ s.scheduler.projected now) (hid : w.id = id ∧ w.n = n)
      (hdeadline : s.scheduler.refillRate ≠ 0 ∧
        w.deadline = now + (n - s.scheduler.projected now) / s.scheduler.refillRate)
      (hwaiting : s'.waiting = others ++ [w]) : CheckEnd s s' now id n others (.sleeping w)
  | raised (e : PyError) (hn : ¬ n ≤ s.scheduler.projected now) (hwaiting : s'.waiting = others) :
      CheckEnd s s' now id n others (.raised id n e)

/-- What an event does to the sleeping calls and the free numbers. -/
inductive StepCase (s s' : System) (event : Event) (now : ℚ) (record : Record) : Prop where
  /-- The first token check of a call. -/
  | first {id : Nat} {n : ℤ} (hcheck : tokenCheck s event = some (id, n)) (hn : 0 < n)
      (hnew : s.nextId ≤ id) (hnext : s'.nextId = id + 1)
      (hend : CheckEnd s s' now id n s.waiting record)
  /-- The token check of a call that has slept. -/
  | again {w : Waiter} (hcheck : tokenCheck s event = some (w.id, w.n)) (hw : w ∈ s.waiting)
      (hnext : s'.nextId = s.nextId) (hend : CheckEnd s s' now w.id w.n (s.waiting.erase w) record)
  /-- No token check. -/
  | other (hcheck : tokenCheck s event = none) (hwaiting : s'.waiting = s.waiting)
      (hnext : s.nextId ≤ s'.nextId)
      (hrecord : ∀ id n slept, record = .granted id n slept → n ≤ 0)

variable {s s' : System} {event : Event} {now : ℚ} {record : Record}

/-- How a pass of `acquire` ends. -/
theorem checkEnd_passStep (s₀ : System) (id : Nat) (n : ℤ) (slept now : ℚ) :
    CheckEnd s₀ (passStep s₀ id n slept now).1 now id n s₀.waiting
        (passStep s₀ id n slept now).2 ∧
      (passStep s₀ id n slept now).1.nextId = s₀.nextId ∧
      (passStep s₀ id n slept now).1.clock = s₀.clock := by
  rcases passStep_cases s₀ id n slept now with
    ⟨hn, hpass⟩ | ⟨w, hn, hrate, rfl, hpass⟩ | ⟨hn, -, hpass⟩
  · rw [hpass]
    exact ⟨.granted slept hn rfl, rfl, rfl⟩
  · rw [hpass]
    exact ⟨.sleeping _ hn ⟨rfl, rfl⟩ ⟨hrate, rfl⟩ rfl, rfl, rfl⟩
  · rw [hpass]
    exact ⟨.raised _ hn rfl, rfl, rfl⟩

/-- A check looks at the scheduler only. -/
theorem CheckEnd.of_scheduler_eq {s₀ : System} {id : Nat} {n : ℤ} {others : List Waiter}
    (h : CheckEnd s₀ s' now id n others record) (heq : s₀.scheduler = s.scheduler) :
    CheckEnd s s' now id n others record := by
  cases h with
  | granted slept hn hwaiting => exact .granted slept (heq ▸ hn) hwaiting
  | sleeping w hn hid hdeadline hwaiting =>
    exact .sleeping w (heq ▸ hn) hid (heq ▸ hdeadline) hwaiting
  | raised e hn hwaiting => exact .raised e (heq ▸ hn) hwaiting

/-- What one event does. -/
theorem step_cases (h : step s event now = some (s', record)) :
    s.clock ≤ now ∧ s'.clock = now ∧ StepCase s s' event now record := by
  obtain ⟨hle, hperformed⟩ := performed_of_step h
  refine ⟨hle, ?_⟩
  cases hperformed with
  | free hid hn =>
    refine ⟨rfl, .other ?_ rfl (hid.trans (Nat.le_succ _)) ?_⟩
    · -- a call for no tokens returns without a check
      rw [tokenCheck, if_neg fun hc => absurd hc.1 (not_lt.mpr hn)]
    · rintro id n slept ⟨rfl⟩
      exact hn
  | refused hid hcap =>
    refine ⟨rfl, .other ?_ rfl (hid.trans (Nat.le_succ _)) ?_⟩
    · -- a call over the capacity raises before it checks
      rw [tokenCheck, if_neg fun hc => absurd hc.2 (not_le.mpr hcap)]
    · rintro id n slept ⟨⟩
  | @first id n hid hn hcap =>
    obtain ⟨hend, hnext, hclock⟩ :=
      checkEnd_passStep { s with clock := now, nextId := id + 1 } id n 0 now
    refine ⟨hclock, .first ?_ hn hid hnext ?_⟩
    · rw [tokenCheck, if_pos ⟨hn, hcap⟩]
    · exact hend.of_scheduler_eq rfl
  | @again w hw =>
    obtain ⟨hend, hnext, hclock⟩ := checkEnd_passStep
      { s with clock := now, waiting := s.waiting.erase w } w.id w.n (w.totalSlept + w.wait) now
    exact ⟨hclock, .again rfl hw hnext (hend.of_scheduler_eq rfl)⟩
  | feedback retryAfter nAttempted =>
    exact ⟨rfl, .other rfl rfl le_rfl fun id n slept hr => by cases hr⟩
  | reported rpcDuration nAttachments =>
    exact ⟨rfl, .other rfl rfl le_rfl fun id n slept hr => by cases hr⟩
  | estimated n => exact ⟨rfl, .other rfl rfl le_rfl fun id n slept hr => by cases hr⟩
  | state => exact ⟨rfl, .other rfl rfl le_rfl fun id n slept hr => by cases hr⟩

/-! ### The order of the grants -/

/-- The sleeping calls have taken their numbers, and ask for tokens. -/
def WaitersOld (s : System) : Prop := ∀ w ∈ s.waiting, w.id < s.nextId ∧ 0 < w.n

/-- After a token check, no call sleeps that is not one of the others or the one that
checked. -/
theorem CheckEnd.mem_waiting {id : Nat} {n : ℤ} {others : List Waiter}
    (h : CheckEnd s s' now id n others record) :
    ∀ w ∈ s'.waiting, w ∈ others ∨ w.id = id ∧ w.n = n := by
  cases h with
  | granted slept hn hwaiting =>
    rw [hwaiting]
    exact fun w hw => .inl hw
  | sleeping w hn hid hdeadline hwaiting =>
    rw [hwaiting]
    intro w' hw'
    rcases List.mem_append.mp hw' with hw' | hw'
    · exact .inl hw'
    · rw [List.mem_singleton.mp hw']
      exact .inr hid
  | raised e hn hwaiting =>
    rw [hwaiting]
    exact fun w hw => .inl hw

/-- Numbers are only taken, and a call that sleeps is one that slept or is new. -/
theorem StepCase.waiting (h : StepCase s s' event now record) :
    s.nextId ≤ s'.nextId ∧ ∀ w ∈ s'.waiting, (∃ w₀ ∈ s.waiting, w₀.id = w.id ∧ w₀.n = w.n) ∨
      (s.nextId ≤ w.id ∧ w.id < s'.nextId ∧ 0 < w.n) := by
  cases h with
  | @first id n hcheck hn hnew hnext hend =>
    refine ⟨by omega, fun w hw => ?_⟩
    rcases hend.mem_waiting w hw with hw | ⟨hid, hwn⟩
    · exact .inl ⟨w, hw, rfl, rfl⟩
    · exact .inr (by omega)
  | @again w₀ hcheck hw₀ hnext hend =>
    refine ⟨hnext.ge, fun w hw => ?_⟩
    rcases hend.mem_waiting w hw with hw | ⟨hid, hwn⟩
    · exact .inl ⟨w, List.mem_of_mem_erase hw, rfl, rfl⟩
    · exact .inl ⟨w₀, hw₀, hid.symm, hwn.symm⟩
  | other hcheck hwaiting hnext hrecord =>
    rw [hwaiting]
    exact ⟨hnext, fun w hw => .inl ⟨w, hw, rfl, rfl⟩⟩

/-- A call that finds enough tokens is granted. -/
theorem StepCase.granted {id : Nat} {n : ℤ} (h : StepCase s s' event now record)
    (hcheck : tokenCheck s event = some (id, n)) (hn : n ≤ s.scheduler.projected now)
    (hold : WaitersOld s) : 0 < n ∧ ∃ slept, record = .granted id n slept := by
  cases h with
  | first hcheck' hpos _ _ hend =>
    obtain ⟨rfl, rfl⟩ := Prod.mk.inj (Option.some.inj (hcheck.symm.trans hcheck'))
    cases hend with
    | granted slept => exact ⟨hpos, slept, rfl⟩
    | sleeping w hlt => exact absurd hn hlt
    | raised e hlt => exact absurd hn hlt
  | again hcheck' hw _ hend =>
    obtain ⟨rfl, rfl⟩ := Prod.mk.inj (Option.some.inj (hcheck.symm.trans hcheck'))
    cases hend with
    | granted slept => exact ⟨(hold _ hw).2, slept, rfl⟩
    | sleeping w hlt => exact absurd hn hlt
    | raised e hlt => exact absurd hn hlt
  | other hnone =>
    rw [hcheck] at hnone
    cases hnone

/-- The first event of a run, and the others. -/
theorem run_cons {e : Event × ℚ} {events : List (Event × ℚ)} {snapshots : List Snapshot}
    (h : run s (e :: events) = some snapshots) :
    ∃ s' record rest, step s e.1 e.2 = some (s', record) ∧ run s' events = some rest ∧
      snapshots = (s', record) :: rest := by
  obtain ⟨event, now⟩ := e
  simp only [run, Option.bind_eq_bind, Option.bind_eq_some_iff, Prod.exists,
    Option.some.injEq] at h
  obtain ⟨s', record, hstep, rest, hrest, rfl⟩ := h
  exact ⟨s', record, rest, hstep, hrest, rfl⟩

/-- The level of the bucket, counted up to the deadline of a sleeper, is at most what the sleeper
asks for. -/
def Timed (s : System) (w : Waiter) : Prop :=
  (bucketOf s.scheduler).level s.clock + (w.deadline - s.clock) * s.scheduler.refillRate ≤ w.n

/-- The time that passes is counted either way. -/
theorem Timed.at {w : Waiter} (h : Timed s w) (hvalid : ValidAt s.scheduler s.clock)
    (hle : s.clock ≤ now) :
    (bucketOf s.scheduler).level now + (w.deadline - now) * s.scheduler.refillRate ≤ w.n := by
  have hgain : (bucketOf s.scheduler).level now ≤ (bucketOf s.scheduler).level s.clock
      + (now - s.clock) * s.scheduler.refillRate := hvalid.level_le_add hle
  have hsplit : (w.deadline - s.clock) * s.scheduler.refillRate
      = (now - s.clock) * s.scheduler.refillRate
        + (w.deadline - now) * s.scheduler.refillRate := by ring
  unfold Timed at h
  linarith

/-- A call that sleeps behind a step slept in front of it, or it has found too few tokens. -/
theorem StepCase.mem_waiting (h : StepCase s s' event now record) :
    ∀ w ∈ s'.waiting, w ∈ s.waiting ∨
      (tokenCheck s event = some (w.id, w.n) ∧ s.scheduler.refillRate ≠ 0 ∧
        w.deadline = now + (w.n - s.scheduler.projected now) / s.scheduler.refillRate) := by
  have hcheck : ∀ {id : Nat} {n : ℤ} {others : List Waiter},
      tokenCheck s event = some (id, n) → CheckEnd s s' now id n others record →
      ∀ w ∈ s'.waiting, w ∈ others ∨
        (tokenCheck s event = some (w.id, w.n) ∧ s.scheduler.refillRate ≠ 0 ∧
          w.deadline = now + (w.n - s.scheduler.projected now) / s.scheduler.refillRate) := by
    intro id n others hcheck hend w hw
    cases hend with
    | granted slept hn hwaiting => exact .inl (hwaiting ▸ hw)
    | raised e hn hwaiting => exact .inl (hwaiting ▸ hw)
    | sleeping w' hn hid hdeadline hwaiting =>
      rw [hwaiting] at hw
      rcases List.mem_append.mp hw with hw | hw
      · exact .inl hw
      · obtain rfl := List.mem_singleton.mp hw
        obtain ⟨rfl, rfl⟩ := hid
        exact .inr ⟨hcheck, hdeadline⟩
  cases h with
  | first hcheck' hn hnew hnext hend => exact hcheck hcheck' hend
  | again hcheck' hw₀ hnext hend =>
    intro w hw
    exact (hcheck hcheck' hend w hw).imp_left List.mem_of_mem_erase
  | other hnone hwaiting => exact fun w hw => .inl (hwaiting ▸ hw)

/-- What holds in an orderly run: the calls that sleep are timed, but for the hurried ones. -/
structure Watched (hurried : List Waiter) (s : System) : Prop where
  valid : ValidAt s.scheduler s.clock
  old : WaitersOld s
  timed : ∀ w ∈ s.waiting, w ∉ hurried → Timed s w

instance decidableInTurn (hurried : List Waiter) (s : System) (event : Event) (now : ℚ) :
    Decidable (InTurn hurried s event now) :=
  inferInstanceAs (Decidable (∀ check ∈ tokenCheck s event, ∀ w ∈ s.waiting, w.id < check.1 →
    w ∉ hurried ∧ (w.n : ℚ) < check.2 + (w.deadline - now) * s.scheduler.refillRate))

instance decidableOrderly : ∀ (hurried : List Waiter) (s : System) (events : List (Event × ℚ))
    (snapshots : List Snapshot), Decidable (Orderly hurried s events snapshots)
  | _, _, [], _ => isTrue trivial
  | _, _, _ :: _, [] => isTrue trivial
  | hurried, s, (event, now) :: events, (s', _) :: trace =>
      have := decidableOrderly (hurriedBy s s' hurried) s' events trace
      inferInstanceAs (Decidable (InTurn hurried s event now ∧
        Orderly (hurriedBy s s' hurried) s' events trace))

end SignalGateway.Proofs.RateLimit
