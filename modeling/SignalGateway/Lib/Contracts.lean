import SignalGateway.Lib.Handlers

/-!
# `SignalGateway.Lib.Contracts`: what a program guarantees if its environment behaves

`p.Contract A G Q` is about the runs of `p` in which every call with its answer satisfies the
assumption `A`. As long as that is so, `p` makes only calls that satisfy the guarantee `G`, and a
value that `p` returns satisfies `Q`. `Contract.runs` and `Contract.after` say this of the runs and
of the partial runs. The rules follow the structure of a program.

The theorems:

* `Contract.runs`: the meaning of a contract for a run to its end.
* `Contract.after`: the meaning for a run that has not ended, which is what a task that is
  still under way has.
* `contract_bind`, `contract_tryCatch`, `contract_andThen`, `contract_attempt`: one rule for
  each construct.
* `contract_lift` and `contract_handle`: a contract moves to an environment with more calls, and
  to one in which every call is a program of its own. With `contract_handle` the contracts of
  the methods of an object give the contract of a program that uses the object.
* `contract_of_only`, `Contract.only`: without an assumption a contract says which calls a
  program makes.
-/

set_option autoImplicit false

namespace Prog

variable {I J : Interface} {ε δ α β : Type}

/-- As long as the calls are answered as assumed, they are as guaranteed, and what is returned
satisfies `Q`. -/
inductive Contract (A : I.Event → Prop) (G : I.Op → Prop) (Q : α → Prop) : Prog I ε α → Prop where
  | pure {a : α} (h : Q a) : Contract A G Q (.pure a)
  | raise (e : ε) : Contract A G Q (.raise e)
  | call {op : I.Op} {next : I.Answer op → Prog I ε α} (hG : G op)
      (hnext : ∀ x, A ⟨op, x⟩ → Contract A G Q (next x)) : Contract A G Q (.call op next)

variable {A : I.Event → Prop} {G : I.Op → Prop} {p q : Prog I ε α} {Q Q' : α → Prop}
  {t : List I.Event}

/-- What a returned value owes. -/
theorem Contract.of_pure {a : α} (h : (Prog.pure a : Prog I ε α).Contract A G Q) : Q a := by
  cases h with
  | pure h => exact h

/-- A call is guaranteed, and what follows has the contract for every answer in `A`. -/
theorem Contract.of_call {op : I.Op} {next : I.Answer op → Prog I ε α}
    (h : (Prog.call op next).Contract A G Q) :
    G op ∧ ∀ x, A ⟨op, x⟩ → (next x).Contract A G Q := by
  cases h with
  | call hG hnext => exact ⟨hG, hnext⟩

/-! ### Runs -/

/-- In a run whose answers can be relied on, every call is guaranteed, and so is the result. -/
theorem Contract.runs {r : Except ε α} (hr : Runs p t r) (h : p.Contract A G Q)
    (ht : ∀ ev ∈ t, A ev) : (∀ ev ∈ t, G ev.1) ∧ ∀ a, r = .ok a → Q a := by
  induction hr with
  | pure a =>
    refine ⟨fun ev hev => absurd hev List.not_mem_nil, fun b hb => ?_⟩
    cases hb
    exact h.of_pure
  | raise e => exact ⟨fun ev hev => absurd hev List.not_mem_nil, fun b hb => by cases hb⟩
  | call x hr ih =>
    obtain ⟨hhead, htail⟩ := List.forall_mem_cons.mp ht
    obtain ⟨hG, hnext⟩ := h.of_call
    obtain ⟨hcalls, hreturn⟩ := ih (hnext x hhead) htail
    exact ⟨List.forall_mem_cons.mpr ⟨hG, hcalls⟩, hreturn⟩

/-- The calls of a run that has not ended are guaranteed, too. -/
theorem Contract.after (ha : After p t q) (h : p.Contract A G Q) (ht : ∀ ev ∈ t, A ev) :
    ∀ ev ∈ t, G ev.1 := by
  induction ha with
  | refl p => exact fun ev hev => absurd hev List.not_mem_nil
  | call x ha ih =>
    obtain ⟨hhead, htail⟩ := List.forall_mem_cons.mp ht
    obtain ⟨hG, hnext⟩ := h.of_call
    exact List.forall_mem_cons.mpr ⟨hG, ih (hnext x hhead) htail⟩

/-! ### Rules -/

/-- A contract with a weaker postcondition. -/
theorem Contract.mono (h : p.Contract A G Q) (hQ : ∀ a, Q a → Q' a) : p.Contract A G Q' := by
  induction p with
  | pure a => exact .pure (hQ a h.of_pure)
  | raise e => exact .raise e
  | call op next ih =>
    exact .call h.of_call.1 fun x hx => ih x (h.of_call.2 x hx)

/-- A weaker guarantee. -/
theorem Contract.weaken {G' : I.Op → Prop} (h : p.Contract A G Q) (hG : ∀ op, G op → G' op) :
    p.Contract A G' Q := by
  induction p with
  | pure a => exact .pure h.of_pure
  | raise e => exact .raise e
  | call op next ih =>
    exact .call (hG op h.of_call.1) fun x hx => ih x (h.of_call.2 x hx)

/-- A computed result owes its postcondition if it returns. -/
theorem contract_ofExcept {x : Except ε α} (h : ∀ a, x = .ok a → Q a) :
    (ofExcept x : Prog I ε α).Contract A G Q := by
  cases x with
  | ok a => exact .pure (h a rfl)
  | error e => exact .raise e

/-- The rule for a sequence. -/
theorem contract_bind {f : α → Prog I ε β} {R : β → Prop} (hp : p.Contract A G Q)
    (hf : ∀ a, Q a → (f a).Contract A G R) : (p >>= f).Contract A G R := by
  show (p.bind f).Contract A G R
  induction p with
  | pure a => exact hf a hp.of_pure
  | raise e => exact .raise e
  | call op next ih =>
    exact .call hp.of_call.1 fun x hx => ih x (hp.of_call.2 x hx)

/-- The rule for a `try`: a handler owes what the body owes. -/
theorem contract_tryCatch {handle : ε → Prog I ε α} (hp : p.Contract A G Q)
    (hh : ∀ e, (handle e).Contract A G Q) : (p.tryCatch handle).Contract A G Q := by
  induction p with
  | pure a => exact .pure hp.of_pure
  | raise e => exact hh e
  | call op next ih =>
    exact .call hp.of_call.1 fun x hx => ih x (hp.of_call.2 x hx)

/-- A program all of whose calls are as guaranteed, whatever the answers. -/
theorem contract_of_only {P : I.Op → Prop} (h : p.Only P) (hG : ∀ op, P op → G op) :
    p.Contract A G fun _ => True := by
  induction p with
  | pure a => exact .pure trivial
  | raise e => exact .raise e
  | call op next ih => exact .call (hG op h.1) fun x _ => ih x (h.2 x)

/-- Without an assumption, the guarantee is about every call. -/
theorem Contract.only (h : p.Contract (fun _ => True) G Q) : p.Only G := by
  induction p with
  | pure a => exact trivial
  | raise e => exact trivial
  | call op next ih => exact ⟨h.of_call.1, fun x => ih x (h.of_call.2 x trivial)⟩

/-- The contract of a method is one of the calls it is made of. -/
theorem contract_lift {f : I.Op → J.Op} {g : (op : I.Op) → J.Answer (f op) → I.Answer op}
    {e : ε → δ} {A' : J.Event → Prop} {G' : J.Op → Prop}
    (hA : ∀ op x, A' ⟨f op, x⟩ → A ⟨op, g op x⟩) (hG : ∀ op, G op → G' (f op))
    (hp : p.Contract A G Q) :
    (p.lift f g e).Contract A' G' Q := by
  induction p with
  | pure a => exact .pure hp.of_pure
  | raise x => exact .raise (e x)
  | call op next ih =>
    exact .call (hG op hp.of_call.1) fun x hx => ih _ (hp.of_call.2 _ (hA op x hx))

/-- A caught error owes nothing. -/
theorem contract_attempt (hp : p.Contract A G Q) :
    p.attempt.Contract A G fun r => ∀ a, r = .ok a → Q a := by
  induction p with
  | pure a =>
    refine .pure fun b hb => ?_
    cases hb
    exact hp.of_pure
  | raise e =>
    refine .pure fun b hb => ?_
    cases hb
  | call op next ih =>
    exact .call hp.of_call.1 fun x hx => ih x (hp.of_call.2 x hx)

/-- The rule for a sequence whose first part does not raise. -/
theorem contract_andThen {p : Prog I Empty α} {f : α → Prog I ε β} {R : β → Prop}
    (hp : p.Contract A G Q) (hf : ∀ a, Q a → (f a).Contract A G R) :
    (p.andThen f).Contract A G R := by
  induction p with
  | pure a => exact hf a hp.of_pure
  | raise e => exact e.elim
  | call op next ih =>
    exact .call hp.of_call.1 fun x hx => ih x (hp.of_call.2 x hx)

/-- The programs of the calls that `p` can make uphold the guarantee, so `p` does with these
programs in place of its calls. -/
theorem contract_handle {P : I.Op → Prop} {A' : J.Event → Prop} {G' : J.Op → Prop}
    {h : (op : I.Op) → Prog J Empty (I.Answer op)} (hp : p.Only P)
    (hh : ∀ op, P op → (h op).Contract A' G' fun _ => True) :
    (p.handle h).Contract A' G' fun _ => True := by
  induction p with
  | pure a => exact .pure trivial
  | raise e => exact .raise e
  | call op next ih => exact contract_andThen (hh op hp.1) fun x _ => ih x (hp.2 x)

end Prog
