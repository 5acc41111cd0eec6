import Mathlib

/-!
# `SignalGateway.Lib.Calls`: programs that call their environment

A `Prog` is a sequential program that performs operations of an `Interface`, gets any answer
to each, and returns or raises. The environment is arbitrary: `Runs p t r` says that `p` can
end with `r` after the calls `t`, a list of operations with their answers. A property of all
runs therefore holds for every outcome of every call, and whatever other tasks do between
two calls.

`runs_bind`, `runs_tryCatch` and `runs_tryFinally` take a run apart, and `Prog.run` finds the
run of a given environment, so every environment has one (`runs_run`). `Only P p` says that
all calls of `p` satisfy `P`.

The rules for runs come in pairs: an equivalence that takes a run apart (`runs_bind`), and the
direction that proofs use most, for a run that returns (`Runs.split`, `Runs.start`).

* `runs_lift`: a program can be moved to an environment with more operations. Its runs there
  are its runs here, call by call.
* `answer_of_mem_run`: in an environment without memory every event of a run carries the answer
  of that environment. Runs on concrete inputs are read off with it.
* `Only.runs` and the rules `only_bind`, `only_tryCatch`, `only_tryFinally`: which calls a
  program can make at all is found by its structure, with no look at the answers.
-/

set_option autoImplicit false

/-- The operations of an environment, and the type of the answers to each. -/
structure Interface where
  Op : Type
  Answer : Op → Type

/-- A call with its answer. -/
abbrev Interface.Event (I : Interface) : Type := (op : I.Op) × I.Answer op

/-- A program over an interface that can raise an `ε`. -/
inductive Prog (I : Interface) (ε α : Type) where
  | pure (a : α)
  | raise (e : ε)
  | call (op : I.Op) (next : I.Answer op → Prog I ε α)

namespace Prog

variable {I : Interface} {ε α β : Type}

/-- Sequencing. -/
def bind (p : Prog I ε α) (f : α → Prog I ε β) : Prog I ε β :=
  match p with
  | .pure a => f a
  | .raise e => .raise e
  | .call op next => .call op fun x => (next x).bind f

instance : Monad (Prog I ε) where
  pure := .pure
  bind := .bind

/-- `try: p except e: handle(e)`. -/
def tryCatch (p : Prog I ε α) (handle : ε → Prog I ε α) : Prog I ε α :=
  match p with
  | .pure a => .pure a
  | .raise e => handle e
  | .call op next => .call op fun x => (next x).tryCatch handle

/-- `try: p finally: final`. -/
def tryFinally (p : Prog I ε α) (final : Prog I ε Unit) : Prog I ε α :=
  (p.tryCatch fun e => final.bind fun _ => .raise e).bind fun a => final.bind fun _ => .pure a

/-- One call. -/
def perform (op : I.Op) : Prog I ε (I.Answer op) := .call op .pure

/-- A computation without calls. -/
def ofExcept : Except ε α → Prog I ε α
  | .ok a => .pure a
  | .error e => .raise e

/-- The same program over an environment with more operations and errors. -/
def lift {J : Interface} {δ : Type} (f : I.Op → J.Op)
    (g : (op : I.Op) → J.Answer (f op) → I.Answer op) (e : ε → δ) : Prog I ε α → Prog J δ α
  | .pure a => .pure a
  | .raise x => .raise (e x)
  | .call op next => .call (f op) fun x => (next (g op x)).lift f g e

/-- `p` can perform the calls `t` and then end with `r`. -/
inductive Runs : Prog I ε α → List I.Event → Except ε α → Prop where
  | pure (a : α) : Runs (.pure a) [] (.ok a)
  | raise (e : ε) : Runs (.raise e) [] (.error e)
  | call {op : I.Op} {next : I.Answer op → Prog I ε α} (x : I.Answer op)
      {t : List I.Event} {r : Except ε α} (h : Runs (next x) t r) :
      Runs (.call op next) (⟨op, x⟩ :: t) r

/-- The run in an environment that answers by the calls so far. -/
def run (env : List I.Event → (op : I.Op) → I.Answer op) :
    Prog I ε α → List I.Event → List I.Event × Except ε α
  | .pure a, _ => ([], .ok a)
  | .raise e, _ => ([], .error e)
  | .call op next, before =>
      let x := env before op
      let rest := (next x).run env (before ++ [⟨op, x⟩])
      (⟨op, x⟩ :: rest.1, rest.2)

/-- The run against an environment is a run of the program. -/
theorem runs_run (env : List I.Event → (op : I.Op) → I.Answer op) (p : Prog I ε α) :
    ∀ before, Runs p (p.run env before).1 (p.run env before).2 := by
  induction p with
  | pure a => exact fun _ => .pure a
  | raise e => exact fun _ => .raise e
  | call op next ih => exact fun before => .call _ (ih _ _)

/-- In an environment without memory, the events carry its answers. -/
theorem answer_of_mem_run {answer : (op : I.Op) → I.Answer op} {p : Prog I ε α} :
    ∀ {before : List I.Event}, ∀ ev ∈ (p.run (fun _ => answer) before).1,
      ev.2 = answer ev.1 := by
  induction p with
  | pure a => exact fun ev hev => absurd hev List.not_mem_nil
  | raise e => exact fun ev hev => absurd hev List.not_mem_nil
  | call op next ih =>
    intro before ev hev
    rcases List.mem_cons.mp hev with rfl | hev
    · rfl
    · exact ih _ ev hev

variable {t : List I.Event} {r : Except ε α}

/-- A program that returns makes no call. -/
@[simp] theorem runs_pure {a : α} :
    Runs (Pure.pure a : Prog I ε α) t r ↔ t = [] ∧ r = .ok a := by
  constructor
  · intro h
    cases h
    exact ⟨rfl, rfl⟩
  · rintro ⟨rfl, rfl⟩
    exact .pure a

/-- A `raise` makes no call. -/
@[simp] theorem runs_raise {e : ε} :
    Runs (.raise e : Prog I ε α) t r ↔ t = [] ∧ r = .error e := by
  constructor
  · intro h
    cases h
    exact ⟨rfl, rfl⟩
  · rintro ⟨rfl, rfl⟩
    exact .raise e

/-- A computed result makes no call. -/
@[simp] theorem runs_ofExcept {x : Except ε α} :
    Runs (ofExcept x : Prog I ε α) t r ↔ t = [] ∧ r = x := by
  cases x with
  | ok a => exact runs_pure
  | error e => exact runs_raise

/-- A run of a call is its event and a run of what follows. -/
theorem runs_call {op : I.Op} {next : I.Answer op → Prog I ε α} :
    Runs (.call op next) t r ↔ ∃ x t', t = ⟨op, x⟩ :: t' ∧ Runs (next x) t' r := by
  constructor
  · intro h
    cases h with
    | call x h => exact ⟨x, _, rfl, h⟩
  · rintro ⟨x, t', rfl, h⟩
    exact .call x h

/-- A call whose answer ends the program. -/
theorem runs_call_ofExcept {op : I.Op} {f : I.Answer op → Except ε α} :
    Runs (.call op fun x => ofExcept (f x)) t r ↔ ∃ x, t = [⟨op, x⟩] ∧ r = f x := by
  rw [runs_call]
  constructor
  · rintro ⟨x, t', rfl, h⟩
    obtain ⟨rfl, rfl⟩ := runs_ofExcept.mp h
    exact ⟨x, rfl, rfl⟩
  · rintro ⟨x, rfl, rfl⟩
    exact ⟨x, [], rfl, runs_ofExcept.mpr ⟨rfl, rfl⟩⟩

/-- A single call returns its answer. -/
@[simp] theorem runs_perform {op : I.Op} {r : Except ε (I.Answer op)} :
    Runs (perform op : Prog I ε (I.Answer op)) t r ↔ ∃ x, t = [⟨op, x⟩] ∧ r = .ok x := by
  rw [perform, runs_call]
  constructor
  · rintro ⟨x, t', rfl, h⟩
    obtain ⟨rfl, rfl⟩ := runs_pure.mp h
    exact ⟨x, rfl, rfl⟩
  · rintro ⟨x, rfl, rfl⟩
    exact ⟨x, [], rfl, .pure x⟩

/-- A run of a sequence: the first part returns and the second runs, or the first part
raises. -/
theorem runs_bind {p : Prog I ε α} {f : α → Prog I ε β} {r : Except ε β} :
    ∀ {t : List I.Event}, Runs (p >>= f) t r ↔
      (∃ a t₁ t₂, t = t₁ ++ t₂ ∧ Runs p t₁ (.ok a) ∧ Runs (f a) t₂ r) ∨
        ∃ e, r = .error e ∧ Runs p t (.error e) := by
  show ∀ {t}, Runs (p.bind f) t r ↔ _
  induction p with
  -- The run of `p` that is split off is empty unless `p` starts with a call.
  | pure a =>
    intro t
    constructor
    · exact fun h => .inl ⟨a, [], t, rfl, .pure a, h⟩
    · rintro (⟨b, t₁, t₂, rfl, h, hf⟩ | ⟨e, rfl, h⟩)
      · cases h
        exact hf
      · cases h
  | raise e =>
    intro t
    constructor
    · intro h
      cases h
      exact .inr ⟨e, rfl, .raise e⟩
    · rintro (⟨b, t₁, t₂, rfl, h, -⟩ | ⟨e', rfl, h⟩)
      · cases h
      · cases h
        exact .raise e
  | call op next ih =>
    intro t
    rw [bind, runs_call]
    constructor
    · rintro ⟨x, t', rfl, h⟩
      -- The call belongs to the part of the run that `p` makes.
      rcases (ih x).mp h with ⟨b, t₁, t₂, rfl, h₁, h₂⟩ | ⟨e, rfl, h₁⟩
      · exact .inl ⟨b, _, t₂, rfl, .call x h₁, h₂⟩
      · exact .inr ⟨e, rfl, .call x h₁⟩
    · rintro (⟨b, t₁, t₂, rfl, h, hf⟩ | ⟨e, rfl, h⟩)
      · obtain ⟨x, t', rfl, hn⟩ := runs_call.mp h
        exact ⟨x, t' ++ t₂, rfl, (ih x).mpr (.inl ⟨b, t', t₂, rfl, hn, hf⟩)⟩
      · obtain ⟨x, t', rfl, hn⟩ := runs_call.mp h
        exact ⟨x, t', rfl, (ih x).mpr (.inr ⟨e, rfl, hn⟩)⟩

/-- A run of a sequence that returns. -/
theorem Runs.split {p : Prog I ε α} {f : α → Prog I ε β} {t : List I.Event} {b : β}
    (h : Runs (p >>= f) t (.ok b)) :
    ∃ a t₁ t₂, t = t₁ ++ t₂ ∧ Runs p t₁ (.ok a) ∧ Runs (f a) t₂ (.ok b) := by
  rcases runs_bind.mp h with h | ⟨e, he, -⟩
  · exact h
  · cases he

/-- A run of a sequence starts with a run of the first part, however it ends. -/
theorem Runs.start {p : Prog I ε α} {f : α → Prog I ε β} {t : List I.Event} {r : Except ε β}
    (h : Runs (p >>= f) t r) :
    ∃ t₁ t₂ r₁, t = t₁ ++ t₂ ∧ Runs p t₁ r₁ ∧ (t₂ = [] ∨ ∃ a, r₁ = .ok a ∧ Runs (f a) t₂ r) := by
  rcases runs_bind.mp h with ⟨a, t₁, t₂, rfl, h₁, h₂⟩ | ⟨e, -, h₁⟩
  · exact ⟨t₁, t₂, .ok a, rfl, h₁, .inr ⟨a, rfl, h₂⟩⟩
  · exact ⟨t, [], .error e, (List.append_nil t).symm, h₁, .inl rfl⟩

/-- A run of a `try`: the body returns, or it raises and the handler runs. -/
theorem runs_tryCatch {p : Prog I ε α} {handle : ε → Prog I ε α} :
    ∀ {t : List I.Event}, Runs (p.tryCatch handle) t r ↔
      (∃ a, r = .ok a ∧ Runs p t (.ok a)) ∨
        ∃ e t₁ t₂, t = t₁ ++ t₂ ∧ Runs p t₁ (.error e) ∧ Runs (handle e) t₂ r := by
  induction p with
  | pure a =>
    intro t
    constructor
    · intro h
      cases h
      exact .inl ⟨a, rfl, .pure a⟩
    · rintro (⟨b, rfl, h⟩ | ⟨e, t₁, t₂, rfl, h, -⟩)
      · exact h
      · cases h
  | raise e =>
    intro t
    constructor
    · exact fun h => .inr ⟨e, [], t, rfl, .raise e, h⟩
    · rintro (⟨b, rfl, h⟩ | ⟨e', t₁, t₂, rfl, h, hh⟩)
      · cases h
      · cases h
        exact hh
  | call op next ih =>
    intro t
    rw [tryCatch, runs_call]
    constructor
    · rintro ⟨x, t', rfl, h⟩
      -- As for `runs_bind`, with the handler behind an error.
      rcases (ih x).mp h with ⟨a, rfl, h₁⟩ | ⟨e, t₁, t₂, rfl, h₁, h₂⟩
      · exact .inl ⟨a, rfl, .call x h₁⟩
      · exact .inr ⟨e, _, t₂, rfl, .call x h₁, h₂⟩
    · rintro (⟨a, rfl, h⟩ | ⟨e, t₁, t₂, rfl, h, hh⟩)
      · obtain ⟨x, t', rfl, hn⟩ := runs_call.mp h
        exact ⟨x, t', rfl, (ih x).mpr (.inl ⟨a, rfl, hn⟩)⟩
      · obtain ⟨x, t', rfl, hn⟩ := runs_call.mp h
        exact ⟨x, t' ++ t₂, rfl, (ih x).mpr (.inr ⟨e, t', t₂, rfl, hn, hh⟩)⟩

/-- A run of a `try` with a `finally`: the last part runs behind the body, however the body
ended. -/
theorem runs_tryFinally {p : Prog I ε α} {final : Prog I ε Unit} :
    Runs (p.tryFinally final) t r ↔
      ∃ t₁ t₂ r₁ r₂, t = t₁ ++ t₂ ∧ Runs p t₁ r₁ ∧ Runs final t₂ r₂ ∧
        r = r₂.bind fun _ => r₁ := by
  -- The rest runs only if `final` returns.
  have hthen : ∀ {t} {q : Prog I ε α}, Runs (final.bind fun _ => q) t r ↔
      (∃ t₁ t₂, t = t₁ ++ t₂ ∧ Runs final t₁ (.ok ()) ∧ Runs q t₂ r) ∨
        ∃ e, r = .error e ∧ Runs final t (.error e) := by
    intro t q
    rw [show final.bind (fun _ => q) = final >>= fun _ => q from rfl, runs_bind]
    constructor
    · rintro (⟨⟨⟩, t₁, t₂, h⟩ | h)
      · exact .inl ⟨t₁, t₂, h⟩
      · exact .inr h
    · rintro (⟨t₁, t₂, h⟩ | h)
      · exact .inl ⟨(), t₁, t₂, h⟩
      · exact .inr h
  rw [tryFinally, show ∀ (q : Prog I ε α) (f : α → Prog I ε α), q.bind f = q >>= f from
    fun _ _ => rfl, runs_bind]
  constructor
  · rintro (⟨a, t₁, t₂, rfl, h₁, h₂⟩ | ⟨e, rfl, h⟩)
    · rcases runs_tryCatch.mp h₁ with ⟨_, ha, h₁⟩ | ⟨e, s₁, s₂, rfl, h₁, hraise⟩
      · cases ha
        rcases hthen.mp h₂ with ⟨u₁, u₂, rfl, hf, hp⟩ | ⟨e, rfl, hf⟩
        · cases hp
          exact ⟨t₁, u₁, .ok a, .ok (), by rw [List.append_nil], h₁, hf, rfl⟩
        · exact ⟨t₁, t₂, .ok a, .error e, rfl, h₁, hf, rfl⟩
      · -- The body raised, so the handler does not return.
        exfalso
        rw [show final.bind (fun _ => Prog.raise e) = final >>= fun _ => Prog.raise (α := α) e
          from rfl, runs_bind] at hraise
        rcases hraise with ⟨_, _, _, -, -, hr⟩ | ⟨_, hr, -⟩
        · cases hr
        · cases hr
    · rcases runs_tryCatch.mp h with ⟨_, ha, -⟩ | ⟨e', s₁, s₂, rfl, h₁, hraise⟩
      · cases ha
      · rcases hthen.mp hraise with ⟨u₁, u₂, rfl, hf, hp⟩ | ⟨e'', hr, hf⟩
        · cases hp
          exact ⟨s₁, u₁, .error e, .ok (), by rw [List.append_nil], h₁, hf, rfl⟩
        · cases hr
          exact ⟨s₁, s₂, .error e', .error e, rfl, h₁, hf, rfl⟩
  · rintro ⟨t₁, t₂, r₁, r₂, rfl, h₁, h₂, rfl⟩
    cases r₁ with
    | ok a =>
      cases r₂ with
      | ok u =>
        refine .inl ⟨a, t₁, t₂, rfl, runs_tryCatch.mpr (.inl ⟨a, rfl, h₁⟩), ?_⟩
        exact hthen.mpr (.inl ⟨t₂, [], by rw [List.append_nil], h₂, .pure a⟩)
      | error e =>
        refine .inl ⟨a, t₁, t₂, rfl, runs_tryCatch.mpr (.inl ⟨a, rfl, h₁⟩), ?_⟩
        exact hthen.mpr (.inr ⟨e, rfl, h₂⟩)
    | error e =>
      cases r₂ with
      | ok u =>
        refine .inr ⟨e, rfl, runs_tryCatch.mpr (.inr ⟨e, t₁, t₂, rfl, h₁, ?_⟩)⟩
        exact hthen.mpr (.inl ⟨t₂, [], by rw [List.append_nil], h₂, .raise e⟩)
      | error e' =>
        refine .inr ⟨e', rfl, runs_tryCatch.mpr (.inr ⟨e, t₁, t₂, rfl, h₁, ?_⟩)⟩
        exact hthen.mpr (.inr ⟨e', rfl, h₂⟩)

/-- A run over the larger environment is a run over the smaller one, call by call. -/
theorem runs_lift {J : Interface} {δ : Type} {f : I.Op → J.Op}
    {g : (op : I.Op) → J.Answer (f op) → I.Answer op} {e : ε → δ} {p : Prog I ε α} :
    ∀ {t : List J.Event} {r : Except δ α}, Runs (p.lift f g e) t r →
      ∃ (us : List ((op : I.Op) × J.Answer (f op))) (r' : Except ε α),
        t = us.map (fun u => ⟨f u.1, u.2⟩) ∧ r = r'.mapError e ∧
          Runs p (us.map fun u => ⟨u.1, g u.1 u.2⟩) r' := by
  induction p with
  | pure a =>
    intro t r h
    obtain ⟨rfl, rfl⟩ := runs_pure.mp h
    exact ⟨[], .ok a, rfl, rfl, .pure a⟩
  | raise x =>
    intro t r h
    obtain ⟨rfl, rfl⟩ := runs_raise.mp h
    exact ⟨[], .error x, rfl, rfl, .raise x⟩
  | call op next ih =>
    intro t r h
    obtain ⟨x, t', rfl, hnext⟩ := runs_call.mp h
    obtain ⟨us, r', rfl, rfl, hrun⟩ := ih (g op x) hnext
    exact ⟨⟨op, x⟩ :: us, r', rfl, rfl, .call _ hrun⟩

/-! ### Which calls a program makes -/

/-- All calls of the program satisfy `P`. -/
def Only (P : I.Op → Prop) : Prog I ε α → Prop
  | .pure _ | .raise _ => True
  | .call op next => P op ∧ ∀ x, (next x).Only P

variable {P : I.Op → Prop}

/-- In a run only calls that the program can make appear. -/
theorem Only.runs {p : Prog I ε α} (h : p.Only P) (hr : Runs p t r) : ∀ ev ∈ t, P ev.1 := by
  induction hr with
  | pure a => exact fun ev hev => absurd hev List.not_mem_nil
  | raise e => exact fun ev hev => absurd hev List.not_mem_nil
  | call x hr ih =>
    intro ev hev
    rcases List.mem_cons.mp hev with rfl | hev
    · exact h.1
    · exact ih (h.2 x) ev hev

/-- A weaker predicate holds of all calls, too. -/
theorem Only.mono {Q : I.Op → Prop} {p : Prog I ε α} (h : p.Only P)
    (hPQ : ∀ op, P op → Q op) : p.Only Q := by
  induction p with
  | pure a => exact trivial
  | raise e => exact trivial
  | call op next ih => exact ⟨hPQ op h.1, fun x => ih x (h.2 x)⟩

/-- A computed result makes no call. -/
theorem only_ofExcept (x : Except ε α) : (ofExcept x : Prog I ε α).Only P := by
  cases x <;> exact trivial

/-- The calls of a sequence are those of its parts. -/
theorem only_bind {p : Prog I ε α} {f : α → Prog I ε β} (hp : p.Only P)
    (hf : ∀ a, (f a).Only P) : (p >>= f).Only P := by
  show (p.bind f).Only P
  induction p with
  | pure a => exact hf a
  | raise e => exact trivial
  | call op next ih => exact ⟨hp.1, fun x => ih x (hp.2 x)⟩

/-- The calls of a `try` are those of its body and its handlers. -/
theorem only_tryCatch {p : Prog I ε α} {handle : ε → Prog I ε α} (hp : p.Only P)
    (hh : ∀ e, (handle e).Only P) : (p.tryCatch handle).Only P := by
  induction p with
  | pure a => exact trivial
  | raise e => exact hh e
  | call op next ih => exact ⟨hp.1, fun x => ih x (hp.2 x)⟩

/-- The calls of a `try` are those of its body and its `finally`. -/
theorem only_tryFinally {p : Prog I ε α} {final : Prog I ε Unit} (hp : p.Only P)
    (hf : final.Only P) : (p.tryFinally final).Only P :=
  only_bind (only_tryCatch hp fun _ => only_bind hf fun _ => trivial) fun _ =>
    only_bind hf fun _ => trivial

end Prog
