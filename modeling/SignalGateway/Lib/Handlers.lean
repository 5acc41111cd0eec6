import SignalGateway.Lib.Calls

/-!
# `SignalGateway.Lib.Handlers`: programs under way, and programs for calls

`After p t q` says that `p` can perform the calls `t` and is then at `q`. A partial run grows
call by call (`After.concat`) and goes on with a run of the rest (`After.runs`).

`p.handle h` performs the program `h op` in place of every call `op` of `p`, over another
environment. `runs_handle` takes its runs apart: they are the runs of `p` with a run of `h` in
place of each call. The program of a call does not raise: what it raises is a value that
`attempt` returns.

Both halves serve programs that are not alone. `After` is what an observer sees of a program
between two of its calls: `Runs.after` cuts a run in two, and `After.complete` says that every
partial run can still come to an end.

The proof of `runs_handle` is an induction over the program. `Handled` pairs each call with the
trace of the program that stands for it, so that facts about all traces can be read off the
list. `only_attempt` and `only_lift` carry over which calls can be made.
-/

set_option autoImplicit false

namespace Prog

variable {I J : Interface} {ε α β : Type}

/-! ### Partial runs -/

/-- `p` can perform the calls `t` and is then at `q`. -/
inductive After : Prog I ε α → List I.Event → Prog I ε α → Prop where
  | refl (p : Prog I ε α) : After p [] p
  | call {op : I.Op} {next : I.Answer op → Prog I ε α} (x : I.Answer op) {t : List I.Event}
      {q : Prog I ε α} (h : After (next x) t q) : After (.call op next) (⟨op, x⟩ :: t) q

variable {p q : Prog I ε α} {t t' : List I.Event} {r : Except ε α}

/-- One more call. -/
theorem After.concat {op : I.Op} {next : I.Answer op → Prog I ε α}
    (h : After p t (.call op next)) (x : I.Answer op) : After p (t ++ [⟨op, x⟩]) (next x) := by
  generalize hq : (Prog.call op next : Prog I ε α) = q at h
  induction h with
  | refl p =>
    subst hq
    exact .call x (.refl _)
  | call y h ih => exact .call y (ih hq)

/-- A run of the rest completes the run. -/
theorem After.runs (h : After p t q) (hq : Runs q t' r) : Runs p (t ++ t') r := by
  induction h with
  | refl p => exact hq
  | call x h ih => exact .call x (ih hq)

/-- A run is a partial run to its end. -/
theorem Runs.after (h : Runs p t r) : ∃ q, After p t q := by
  induction h with
  | pure a => exact ⟨_, .refl _⟩
  | raise e => exact ⟨_, .refl _⟩
  | call x h ih =>
    obtain ⟨q, hq⟩ := ih
    exact ⟨q, .call x hq⟩

/-- Every partial run can be completed in an environment that answers. -/
theorem After.complete (env : (op : I.Op) → I.Answer op) (h : After p t q) :
    ∃ t' r, Runs p (t ++ t') r :=
  ⟨_, _, h.runs (runs_run (fun _ => env) q [])⟩

/-! ### The end of a program as a value -/

/-- The program that returns how `p` ended. -/
def attempt : Prog I ε α → Prog I Empty (Except ε α)
  | .pure a => .pure (.ok a)
  | .raise e => .pure (.error e)
  | .call op next => .call op fun x => (next x).attempt

/-- A caught program runs as before, and its error becomes a value. -/
theorem runs_attempt {p : Prog I ε α} : ∀ {t : List I.Event} {r : Except Empty (Except ε α)},
    Runs p.attempt t r ↔ ∃ r', r = .ok r' ∧ Runs p t r' := by
  induction p with
  | pure a =>
    intro t r
    constructor
    · intro h
      cases h
      exact ⟨.ok a, rfl, .pure a⟩
    · rintro ⟨r', rfl, h⟩
      cases h
      exact .pure _
  | raise e =>
    intro t r
    constructor
    · intro h
      cases h
      exact ⟨.error e, rfl, .raise e⟩
    · rintro ⟨r', rfl, h⟩
      cases h
      exact .pure _
  | call op next ih =>
    intro t r
    rw [attempt, runs_call]
    constructor
    · rintro ⟨x, t', rfl, h⟩
      obtain ⟨r', rfl, h'⟩ := (ih x).mp h
      exact ⟨r', rfl, .call x h'⟩
    · rintro ⟨r', rfl, h⟩
      obtain ⟨x, t', rfl, h'⟩ := runs_call.mp h
      exact ⟨x, t', rfl, (ih x).mpr ⟨r', rfl, h'⟩⟩

/-- A program that does not raise, and what follows. -/
def andThen (p : Prog I Empty α) (f : α → Prog I ε β) : Prog I ε β :=
  match p with
  | .pure a => f a
  | .raise e => e.elim
  | .call op next => .call op fun x => (next x).andThen f

/-- A run of a sequence is a run of each part. -/
theorem runs_andThen {p : Prog I Empty α} {f : α → Prog I ε β} {r : Except ε β} :
    ∀ {t : List I.Event}, Runs (p.andThen f) t r ↔
      ∃ a t₁ t₂, t = t₁ ++ t₂ ∧ Runs p t₁ (.ok a) ∧ Runs (f a) t₂ r := by
  induction p with
  | pure a =>
    intro t
    constructor
    · exact fun h => ⟨a, [], t, rfl, .pure a, h⟩
    · rintro ⟨b, t₁, t₂, rfl, h, hf⟩
      cases h
      exact hf
  | raise e => exact e.elim
  | call op next ih =>
    intro t
    rw [andThen, runs_call]
    constructor
    · rintro ⟨x, t', rfl, h⟩
      obtain ⟨a, t₁, t₂, rfl, h₁, h₂⟩ := (ih x).mp h
      exact ⟨a, _, t₂, rfl, .call x h₁, h₂⟩
    · rintro ⟨a, t₁, t₂, rfl, h, hf⟩
      obtain ⟨x, t', rfl, h'⟩ := runs_call.mp h
      exact ⟨x, t' ++ t₂, rfl, (ih x).mpr ⟨a, t', t₂, rfl, h', hf⟩⟩

/-! ### A program for each call -/

/-- `p` with the program `h op` in place of each call `op`. -/
def handle (h : (op : I.Op) → Prog J Empty (I.Answer op)) : Prog I ε α → Prog J ε α
  | .pure a => .pure a
  | .raise e => .raise e
  | .call op next => (h op).andThen fun x => (next x).handle h

variable {h : (op : I.Op) → Prog J Empty (I.Answer op)}

/-- The traces of the programs of some calls. -/
abbrev Handled (h : (op : I.Op) → Prog J Empty (I.Answer op)) :
    List I.Event → List (List J.Event) → Prop :=
  List.Forall₂ fun ev s => Runs (h ev.1) s (.ok ev.2)

/-- A run is a run of `p`, with a run of the program of each call in place of the call. -/
theorem runs_handle {p : Prog I ε α} {r : Except ε α} : ∀ {t : List J.Event},
    Runs (p.handle h) t r ↔ ∃ us ts, Runs p us r ∧ Handled h us ts ∧ t = ts.flatten := by
  induction p with
  | pure a =>
    intro t
    constructor
    · intro hr
      cases hr
      exact ⟨[], [], .pure a, .nil, rfl⟩
    · rintro ⟨us, ts, hr, hh, rfl⟩
      cases hr
      cases hh
      exact .pure a
  | raise e =>
    intro t
    constructor
    · intro hr
      cases hr
      exact ⟨[], [], .raise e, .nil, rfl⟩
    · rintro ⟨us, ts, hr, hh, rfl⟩
      cases hr
      cases hh
      exact .raise e
  | call op next ih =>
    intro t
    rw [handle, runs_andThen]
    constructor
    · rintro ⟨x, t₁, t₂, rfl, h₁, h₂⟩
      obtain ⟨us, ts, hr, hh, rfl⟩ := (ih x).mp h₂
      exact ⟨⟨op, x⟩ :: us, t₁ :: ts, .call x hr, .cons h₁ hh, rfl⟩
    · rintro ⟨us, ts, hr, hh, rfl⟩
      obtain ⟨x, us', rfl, hr'⟩ := runs_call.mp hr
      cases hh with
      | @cons _ s _ ts' hs hh' =>
        exact ⟨x, s, ts'.flatten, rfl, hs, (ih x).mpr ⟨us', ts', hr', hh', rfl⟩⟩

/-! ### Which calls the programs make -/

variable {P : J.Op → Prop} {Q : I.Op → Prop}

/-- Catching errors adds no call. -/
theorem only_attempt {P : I.Op → Prop} {p : Prog I ε α} (hp : p.Only P) : p.attempt.Only P := by
  induction p with
  | pure a => exact trivial
  | raise e => exact trivial
  | call op next ih => exact ⟨hp.1, fun x => ih x (hp.2 x)⟩

/-- Without a condition on the calls there is nothing to show. -/
theorem only_true (p : Prog I ε α) : p.Only fun _ => True := by
  induction p with
  | pure a => exact trivial
  | raise e => exact trivial
  | call op next ih => exact ⟨trivial, ih⟩

/-- A method makes the calls it is made of. -/
theorem only_lift {δ : Type} {f : I.Op → J.Op} {g : (op : I.Op) → J.Answer (f op) → I.Answer op}
    {e : ε → δ} {p : Prog I ε α} (hp : p.Only Q) (hf : ∀ op, Q op → P (f op)) :
    (p.lift f g e).Only P := by
  induction p with
  | pure a => exact trivial
  | raise x => exact trivial
  | call op next ih => exact ⟨hf op hp.1, fun x => ih (g op x) (hp.2 (g op x))⟩

end Prog
