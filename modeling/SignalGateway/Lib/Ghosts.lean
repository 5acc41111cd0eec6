import SignalGateway.Lib.Handlers

/-!
# `SignalGateway.Lib.Ghosts`: programs with a ghost state

A ghost state follows the calls of a program: `step` says what becomes of it with a call and its
answer. `p.Upholds step G s Q` says that from the state `s`, whatever the answers are, `p` makes
each call in a state that allows it (`G`), and ends in a state with `Q`.

The rules follow the structure of a program. `Upholds.after` and `Upholds.runs` say what this
means for its partial runs and its runs: the state behind the calls `t` is `t.foldl step s`.

With a contract (`Lib.Contracts`) a guarantee depends on the call alone. A ghost state is needed
where it depends on what has happened before: a file may be written only while its directory
exists, and what was read is what was written last.

* `upholds_bind`, `upholds_tryCatch`, `upholds_tryFinally`: one rule for each construct. The
  postcondition is about how the part has ended and about the state.
* `upholds_of_only`: calls that keep an invariant need no look at their order.
* `upholds_handle`: the calls of a program can be programs over other calls, if these leave the
  state as the call does.
* `Upholds.allowed_of_split`: in a run every call was allowed in the state behind the calls in
  front of it.
-/

set_option autoImplicit false

namespace Prog

variable {I J : Interface} {ε δ α β σ : Type}

/-- The program makes its calls in states that allow them, and ends as `Q` says. -/
def Upholds (step : σ → I.Event → σ) (G : σ → I.Op → Prop) :
    Prog I ε α → σ → (Except ε α → σ → Prop) → Prop
  | .pure a, s, Q => Q (.ok a) s
  | .raise e, s, Q => Q (.error e) s
  | .call op next, s, Q => G s op ∧ ∀ x, (next x).Upholds step G (step s ⟨op, x⟩) Q

variable {step : σ → I.Event → σ} {G : σ → I.Op → Prop} {p q : Prog I ε α} {s : σ}
  {Q R : Except ε α → σ → Prop} {t : List I.Event}

/-! ### Runs -/

/-- What is left of a program upholds what the program does. -/
theorem Upholds.after (h : p.Upholds step G s Q) (ha : After p t q) :
    q.Upholds step G (t.foldl step s) Q := by
  induction ha generalizing s with
  | refl p => exact h
  | call x ha ih => exact ih (h.2 x)

/-- The next call is allowed. -/
theorem Upholds.allowed {op : I.Op} {next : I.Answer op → Prog I ε α}
    (h : p.Upholds step G s Q) (ha : After p t (.call op next)) : G (t.foldl step s) op :=
  (h.after ha).1

/-- Every call was allowed. -/
theorem Upholds.allowed_of_split (h : p.Upholds step G s Q) {earlier later : List I.Event}
    {ev : I.Event} (ha : After p (earlier ++ ev :: later) q) : G (earlier.foldl step s) ev.1 := by
  induction earlier generalizing p s with
  | nil =>
    cases ha with
    | call x ha => exact h.1
  | cons first earlier ih =>
    cases ha with
    | call x ha => exact ih (h.2 x) ha

/-- A run ends in a state of the ghost that satisfies the postcondition. -/
theorem Upholds.runs {r : Except ε α} (h : p.Upholds step G s Q) (hr : Runs p t r) :
    Q r (t.foldl step s) := by
  induction hr generalizing s with
  | pure a => exact h
  | raise e => exact h
  | call x hr ih => exact ih (h.2 x)

/-! ### Rules -/

/-- A weaker postcondition. -/
theorem Upholds.mono (h : p.Upholds step G s Q) (hQ : ∀ r s', Q r s' → R r s') :
    p.Upholds step G s R := by
  induction p generalizing s with
  | pure a => exact hQ _ _ h
  | raise e => exact hQ _ _ h
  | call op next ih => exact ⟨h.1, fun x => ih x (h.2 x)⟩

/-- A computed result leaves the ghost alone. -/
theorem upholds_ofExcept {x : Except ε α} (h : Q x s) :
    (ofExcept x : Prog I ε α).Upholds step G s Q := by
  cases x with
  | ok a => exact h
  | error e => exact h

/-- What follows starts where `p` returns. -/
theorem upholds_bind {f : α → Prog I ε β} {Q : Except ε β → σ → Prop}
    (hp : p.Upholds step G s R)
    (hok : ∀ a s', R (.ok a) s' → (f a).Upholds step G s' Q)
    (herr : ∀ e s', R (.error e) s' → Q (.error e) s') :
    (p >>= f).Upholds step G s Q := by
  show (p.bind f).Upholds step G s Q
  induction p generalizing s with
  | pure a => exact hok a s hp
  | raise e => exact herr e s hp
  | call op next ih => exact ⟨hp.1, fun x => ih x (hp.2 x)⟩

/-- The rule for a `try`: the handler starts where the body raised. -/
theorem upholds_tryCatch {handle : ε → Prog I ε α} (hp : p.Upholds step G s R)
    (hok : ∀ a s', R (.ok a) s' → Q (.ok a) s')
    (herr : ∀ e s', R (.error e) s' → (handle e).Upholds step G s' Q) :
    (p.tryCatch handle).Upholds step G s Q := by
  induction p generalizing s with
  | pure a => exact hok a s hp
  | raise e => exact herr e s hp
  | call op next ih => exact ⟨hp.1, fun x => ih x (hp.2 x)⟩

/-- The end of `final` is that of `p`, unless `final` raises. -/
theorem upholds_tryFinally {final : Prog I ε Unit} (hp : p.Upholds step G s R)
    (hfinal : ∀ r s', R r s' → final.Upholds step G s' fun r' s'' =>
      (r' = .ok () → Q r s'') ∧ ∀ e, r' = .error e → Q (.error e) s'') :
    (p.tryFinally final).Upholds step G s Q := by
  refine upholds_bind (R := fun r s' => (∃ a, r = .ok a ∧ R r s') ∨ ∃ e, r = .error e ∧ Q r s')
    (upholds_tryCatch hp (fun a s' h => .inl ⟨a, rfl, h⟩) fun e s' h => ?_)
    (fun a s' h => ?_) fun e s' h => ?_
  · exact upholds_bind (hfinal _ _ h) (fun _ s'' h' => .inr ⟨e, rfl, h'.1 rfl⟩)
      fun e' s'' h' => .inr ⟨e', rfl, h'.2 e' rfl⟩
  · rcases h with ⟨-, -, h⟩ | ⟨e, he, -⟩
    · exact upholds_bind (hfinal _ _ h) (fun _ s'' h' => h'.1 rfl) fun e' s'' h' => h'.2 e' rfl
    · cases he
  · rcases h with ⟨a, ha, -⟩ | ⟨-, -, h⟩
    · cases ha
    · exact h

/-- A program whose calls keep an invariant, and are allowed under it. -/
theorem upholds_of_only {P : I.Op → Prop} {Inv : σ → Prop} (h : p.Only P)
    (hG : ∀ s op, Inv s → P op → G s op)
    (hstep : ∀ s op x, Inv s → P op → Inv (step s ⟨op, x⟩)) (hs : Inv s) :
    p.Upholds step G s fun _ s' => Inv s' := by
  induction p generalizing s with
  | pure a => exact hs
  | raise e => exact hs
  | call op next ih => exact ⟨hG s op hs h.1, fun x => ih x (h.2 x) (hstep s op x hs h.1)⟩

/-- The rule for a sequence whose first part does not raise. -/
theorem upholds_andThen {p : Prog I Empty α} {f : α → Prog I ε β}
    {R : Except Empty α → σ → Prop} {Q : Except ε β → σ → Prop} (hp : p.Upholds step G s R)
    (hf : ∀ a s', R (.ok a) s' → (f a).Upholds step G s' Q) :
    (p.andThen f).Upholds step G s Q := by
  induction p generalizing s with
  | pure a => exact hf a s hp
  | raise e => exact e.elim
  | call op next ih => exact ⟨hp.1, fun x => ih x (hp.2 x)⟩

/-- With the program `h op` in place of each call `op`: it may make calls of its own, and leaves
the state as the call does. -/
theorem upholds_handle {h : (op : I.Op) → Prog J Empty (I.Answer op)}
    {step' : σ → J.Event → σ} {G' : σ → J.Op → Prop} (hp : p.Upholds step G s Q)
    (hh : ∀ s op, G s op → (h op).Upholds step' G' s fun r s' =>
      ∀ x, r = .ok x → s' = step s ⟨op, x⟩) :
    (p.handle h).Upholds step' G' s Q := by
  induction p generalizing s with
  | pure a => exact hp
  | raise e => exact hp
  | call op next ih =>
    refine upholds_andThen (hh s op hp.1) fun x s' hs' => ?_
    rw [hs' x rfl]
    exact ih x (hp.2 x)

end Prog
