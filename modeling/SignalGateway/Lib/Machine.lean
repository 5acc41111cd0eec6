import Mathlib

/-!
# `SignalGateway.Lib.Machine`: runs of a machine with partial steps

A machine is a function `step` that gives the state behind an event, or `none` if the event is
not possible. `Machine.run` is the state after a list of events. `run_concat` and `run_split`
take a run apart, and `run_induction` proves a property of a state with its history.

`run_since` finds the event that made a property true which holds at the end of a run. Behind
that event the property stays true.

The theorems:

* `run_append`, `run_cons`, `run_concat`, `run_split`: where a run can be cut.
* `run_induction`: the rule for invariants. The motive sees the history too, so an invariant can
  tie a state to the events that led there.
* `run_since`: what holds now and did not hold at the start was made true by one event, and the
  events behind that event have kept it. Laws about the cause of a state use it: the wait of a
  loop, the probe that closed a stream.
-/

set_option autoImplicit false

namespace Machine

variable {σ ε : Type}

/-- The state after the events, if all of them are possible. -/
def run (step : σ → ε → Option σ) (s : σ) (events : List ε) : Option σ := events.foldlM step s

variable {step : σ → ε → Option σ} {s s' : σ}

/-- The empty run stays where it is. -/
@[simp] theorem run_nil : run step s [] = some s' ↔ s = s' := by simp [run]

/-- A run can be cut anywhere. -/
theorem run_append {es es' : List ε} :
    run step s (es ++ es') = some s' ↔
      ∃ s₁, run step s es = some s₁ ∧ run step s₁ es' = some s' := by
  simp [run, List.foldlM_append, Option.bind_eq_some_iff]

/-- The first step, and the run from there. -/
theorem run_cons {e : ε} {es : List ε} :
    run step s (e :: es) = some s' ↔
      ∃ s₁, step s e = some s₁ ∧ run step s₁ es = some s' := by
  simp [run, Option.bind_eq_some_iff]

/-- The run up to the last step, and that step. -/
theorem run_concat {es : List ε} {e : ε} :
    run step s (es ++ [e]) = some s' ↔
      ∃ s₁, run step s es = some s₁ ∧ step s₁ e = some s' := by
  simp only [run_append, run_cons, run_nil, exists_eq_right]

/-- A run through an event in the middle. -/
theorem run_split {es es' : List ε} {e : ε} :
    run step s (es ++ e :: es') = some s' ↔
      ∃ s₁ s₂, run step s es = some s₁ ∧ step s₁ e = some s₂ ∧ run step s₂ es' = some s' := by
  simp only [run_append, run_cons]
  exact ⟨fun ⟨s₁, h, s₂, he, h'⟩ => ⟨s₁, s₂, h, he, h'⟩,
    fun ⟨s₁, s₂, h, he, h'⟩ => ⟨s₁, h, s₂, he, h'⟩⟩

/-- A property of a state and its history holds in every run if it holds at the start and every
step keeps it. -/
theorem run_induction {motive : List ε → σ → Prop} (start : motive [] s)
    (next : ∀ es s₁ e s₂, motive es s₁ → step s₁ e = some s₂ → motive (es ++ [e]) s₂) :
    ∀ {es : List ε} {s' : σ}, run step s es = some s' → motive es s' := by
  intro es
  induction es using List.reverseRecOn with
  | nil =>
    intro s' h
    obtain rfl := run_nil.mp h
    exact start
  | append_singleton es e ih =>
    intro s' h
    obtain ⟨s₁, hrun, hstep⟩ := run_concat.mp h
    exact next es s₁ e s' (ih hrun) hstep

/-- The steps of the events all stay inside a property. -/
def StaysIn (step : σ → ε → Option σ) (P : σ → Prop) (events : List ε) : Prop :=
  ∀ e ∈ events, ∃ s s', step s e = some s' ∧ P s ∧ P s'

/-- A property that holds at the end of a run and not at its start was made true by an event of
the run, and has stayed true since. -/
theorem run_since {P : σ → Prop} (hstart : ¬ P s) :
    ∀ {es : List ε} {s' : σ}, run step s es = some s' → P s' →
      ∃ before e after s₁ s₂, es = before ++ e :: after ∧ run step s before = some s₁ ∧
        step s₁ e = some s₂ ∧ ¬ P s₁ ∧ P s₂ ∧ run step s₂ after = some s' ∧
        StaysIn step P after := by
  intro es
  induction es using List.reverseRecOn with
  | nil =>
    intro s' h hP
    obtain rfl := run_nil.mp h
    exact absurd hP hstart
  | append_singleton es e ih =>
    intro s' h hP
    obtain ⟨s₁, hrun, hstep⟩ := run_concat.mp h
    by_cases hP₁ : P s₁
    · -- The event before the last one is not the one that is looked for.
      obtain ⟨before, e₀, after, t₁, t₂, rfl, hb, he, hn, hP₂, ha, hin⟩ := ih hrun hP₁
      refine ⟨before, e₀, after ++ [e], t₁, t₂, by simp, hb, he, hn, hP₂,
        run_concat.mpr ⟨s₁, ha, hstep⟩, fun x hx => ?_⟩
      rcases List.mem_append.mp hx with hx | hx
      · exact hin x hx
      · obtain rfl := List.mem_singleton.mp hx
        exact ⟨s₁, s', hstep, hP₁, hP⟩
    · exact ⟨es, e, [], s₁, s', rfl, hrun, hstep, hP₁, hP, run_nil.mpr rfl,
        fun _ hx => absurd hx List.not_mem_nil⟩

end Machine
