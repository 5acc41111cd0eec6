import SignalGateway.Lib.Handlers

/-!
# `SignalGateway.Lib.Pool`: programs that run side by side

A `Pool` holds numbered tasks, each with what is left of its program, and the calls that the
tasks have made. A task is spawned, makes its calls one after the other, and ends. The calls of
different tasks come in any order.

`Pool.Valid` says that nothing of this shows in the calls of one task: they are a run of its
program, or a partial run while the task is there.

A step of the pool is a step of one task: `call_eq_some` and `finish_eq_some` invert it, and
`tasks_spawn` says what a new task adds. The log has one entry for each call, with the number of
its task, and `ownCalls` picks the calls of one task out of it.

`Valid` is kept by every step: `Valid.spawn`, `Valid.call` and `Valid.finish`. From it a law
about one program alone, proved with `Lib.Calls` or `Lib.Contracts`, becomes a law about every
task of the pool under every interleaving. `Known` remembers what each task is for, also when
the task has ended.
-/

set_option autoImplicit false

namespace Prog

variable {I : Interface} {ε α : Type}

/-- How the program has ended, if it has. -/
def result? : Prog I ε α → Option (Except ε α)
  | .pure a => some (.ok a)
  | .raise e => some (.error e)
  | .call _ _ => none

/-- A program that has ended has made no call. -/
theorem runs_of_result? {p : Prog I ε α} {r : Except ε α} (h : p.result? = some r) :
    Runs p [] r := by
  cases p with
  | pure a =>
    cases h
    exact .pure a
  | raise e =>
    cases h
    exact .raise e
  | call op next => cases h

/-- A program that has ended after a trace has that run. -/
theorem After.ended {p q : Prog I ε α} {t : List I.Event} {r : Except ε α} (h : After p t q)
    (hq : q.result? = some r) : Runs p t r := by
  simpa using h.runs (runs_of_result? hq)

end Prog

/-- A running task: what it is for, and what is left of its program. -/
structure Pool.Task (I : Interface) (ε α κ : Type) where
  subject : κ
  rest : Prog I ε α

/-- Tasks side by side. -/
structure Pool (I : Interface) (ε α κ : Type) where
  tasks : Nat → Option (Pool.Task I ε α κ)
  /-- The calls so far, each with the number of its task. -/
  made : List (Nat × I.Event)
  /-- The tasks that are over, and how each has ended. -/
  ended : List (Nat × κ × Except ε α)

namespace Pool

variable {I : Interface} {ε α κ : Type}

/-- No tasks. -/
def empty : Pool I ε α κ := ⟨fun _ => none, [], []⟩

/-- The calls of one task. -/
def ownCalls (id : Nat) (made : List (Nat × I.Event)) : List I.Event :=
  (made.filter fun entry => entry.1 == id).map Prod.snd

/-- The own calls of two stretches of the log. -/
@[simp] theorem ownCalls_append (id : Nat) (made made' : List (Nat × I.Event)) :
    ownCalls id (made ++ made') = ownCalls id made ++ ownCalls id made' := by
  simp [ownCalls]

/-- A call belongs to the task that made it. -/
theorem ownCalls_singleton (id id' : Nat) (ev : I.Event) :
    ownCalls id [(id', ev)] = if id' = id then [ev] else [] := by
  by_cases h : id' = id <;> simp [ownCalls, h]

/-- The own calls are the ones logged under the id. -/
theorem mem_ownCalls {id : Nat} {ev : I.Event} {made : List (Nat × I.Event)} :
    ev ∈ ownCalls id made ↔ (id, ev) ∈ made := by
  simp [ownCalls]

/-- A new task. -/
def spawn (pool : Pool I ε α κ) (id : Nat) (subject : κ) (program : Prog I ε α) :
    Pool I ε α κ :=
  { pool with tasks := Function.update pool.tasks id (some ⟨subject, program⟩) }

/-- A new task is added under its id. -/
theorem tasks_spawn (pool : Pool I ε α κ) (id : Nat) (subject : κ) (program : Prog I ε α) :
    (pool.spawn id subject program).tasks
      = Function.update pool.tasks id (some ⟨subject, program⟩) := rfl

/-- The task makes its next call, and `answer` answers it. -/
def call (pool : Pool I ε α κ) (id : Nat) (answer : (op : I.Op) → I.Answer op) :
    Option (Pool I ε α κ) :=
  match pool.tasks id with
  | some ⟨subject, .call op next⟩ =>
      some { pool with
        tasks := Function.update pool.tasks id (some ⟨subject, next (answer op)⟩)
        made := pool.made ++ [(id, ⟨op, answer op⟩)] }
  | _ => none

/-- The task ends. -/
def finish (pool : Pool I ε α κ) (id : Nat) : Option (Pool I ε α κ × κ × Except ε α) := do
  let ⟨subject, rest⟩ ← pool.tasks id
  let r ← rest.result?
  some ({ pool with
    tasks := Function.update pool.tasks id none
    ended := pool.ended ++ [(id, subject, r)] }, subject, r)

/-- A task of this number and subject has been spawned. -/
def Known (pool : Pool I ε α κ) (id : Nat) (subject : κ) : Prop :=
  (∃ rest, pool.tasks id = some ⟨subject, rest⟩) ∨ ∃ r, (id, subject, r) ∈ pool.ended

variable {pool pool' : Pool I ε α κ} {id : Nat} {subject : κ} {r : Except ε α}

/-- A call needs a task that is at a call, and moves that task on. -/
theorem call_eq_some {answer : (op : I.Op) → I.Answer op} :
    pool.call id answer = some pool' ↔ ∃ subject op next,
      pool.tasks id = some ⟨subject, .call op next⟩ ∧
      pool' = { pool with
        tasks := Function.update pool.tasks id (some ⟨subject, next (answer op)⟩)
        made := pool.made ++ [(id, ⟨op, answer op⟩)] } := by
  unfold call
  constructor
  · intro h
    split at h
    · next subject op next htask => exact ⟨subject, op, next, htask, (Option.some.inj h).symm⟩
    · cases h
  · rintro ⟨subject, op, next, htask, rfl⟩
    rw [htask]

/-- A task is taken out when its program has ended. -/
theorem finish_eq_some : pool.finish id = some (pool', subject, r) ↔ ∃ rest,
    pool.tasks id = some ⟨subject, rest⟩ ∧ rest.result? = some r ∧
    pool' = { pool with
      tasks := Function.update pool.tasks id none
      ended := pool.ended ++ [(id, subject, r)] } := by
  simp only [finish, Option.bind_eq_bind, Option.bind_eq_some_iff, Option.some.injEq,
    Prod.mk.injEq]
  constructor
  · rintro ⟨⟨subject', rest⟩, htask, r', hr, rfl, rfl, rfl⟩
    exact ⟨rest, htask, hr, rfl⟩
  · rintro ⟨rest, htask, hr, rfl⟩
    exact ⟨⟨subject, rest⟩, htask, r, hr, rfl, rfl, rfl⟩

/-- The end of a task makes no call. -/
theorem made_finish (h : pool.finish id = some (pool', subject, r)) : pool'.made = pool.made := by
  obtain ⟨rest, -, -, rfl⟩ := finish_eq_some.mp h
  rfl

/-- The end of a task is logged. -/
theorem ended_finish (h : pool.finish id = some (pool', subject, r)) :
    pool'.ended = pool.ended ++ [(id, subject, r)] := by
  obtain ⟨rest, -, -, rfl⟩ := finish_eq_some.mp h
  rfl

/-! ### What the calls of a task are -/

/-- The calls of each task are those of its program, and numbers from `fresh` on are free. -/
structure Valid (program : Nat → κ → Prog I ε α) (fresh : Nat) (pool : Pool I ε α κ) :
    Prop where
  running : ∀ id subject rest, pool.tasks id = some ⟨subject, rest⟩ →
    (program id subject).After (ownCalls id pool.made) rest
  complete : ∀ id subject r, (id, subject, r) ∈ pool.ended →
    (program id subject).Runs (ownCalls id pool.made) r ∧ pool.tasks id = none
  known : ∀ entry ∈ pool.made, ∃ subject, pool.Known entry.1 subject
  lt : ∀ id subject, pool.Known id subject → id < fresh

variable {program : Nat → κ → Prog I ε α} {fresh : Nat}

/-- A pool without tasks is valid. -/
theorem valid_empty : Valid program fresh (empty : Pool I ε α κ) where
  running id subject rest h := by cases h
  complete id subject r h := absurd h List.not_mem_nil
  known entry h := absurd h List.not_mem_nil
  lt id subject h := by
    rcases h with ⟨rest, h⟩ | ⟨r, h⟩
    · cases h
    · exact absurd h List.not_mem_nil

/-- A valid pool stays so for a larger number of ids. -/
theorem Valid.mono (h : Valid program fresh pool) {fresh' : Nat} (hle : fresh ≤ fresh') :
    Valid program fresh' pool :=
  { h with lt := fun id subject hid => (h.lt id subject hid).trans_le hle }

/-- A task of a new number has made no calls. -/
theorem Valid.ownCalls_eq_nil (h : Valid program fresh pool) (hid : fresh ≤ id) :
    ownCalls id pool.made = [] := by
  refine List.eq_nil_iff_forall_not_mem.mpr fun ev hev => ?_
  obtain ⟨subject, hknown⟩ := h.known _ (mem_ownCalls.mp hev)
  exact absurd (h.lt _ _ hknown) (Nat.not_lt.mpr hid)

/-- The subjects after a new task: those before and its own. -/
theorem known_spawn {id' : Nat} {subject' : κ} {p : Prog I ε α}
    (hid : pool.tasks id = none) :
    (pool.spawn id subject p).Known id' subject' ↔
      id' = id ∧ subject' = subject ∨ pool.Known id' subject' := by
  unfold Known spawn
  by_cases h : id' = id
  · subst h
    simp only [Function.update_self, hid, Option.some.injEq, Task.mk.injEq]
    grind
  · simp [h]

/-- No task has an id that was not given out yet. -/
theorem Valid.tasks_eq_none (h : Valid program fresh pool) (hid : fresh ≤ id) :
    pool.tasks id = none := by
  cases htask : pool.tasks id with
  | none => rfl
  | some task => exact absurd (h.lt id task.subject (.inl ⟨task.rest, htask⟩)) (by omega)

/-- A pool with a new task under a fresh id is valid. -/
theorem Valid.spawn (h : Valid program fresh pool) (hid : fresh ≤ id) (subject : κ) :
    Valid program (id + 1) (pool.spawn id subject (program id subject)) := by
  have hnone := h.tasks_eq_none hid
  constructor
  case running =>
    intro id' subject' rest htask
    by_cases hne : id' = id
    · subst hne
      rw [tasks_spawn, Function.update_self] at htask
      cases htask
      -- The number is new, so the task starts without calls.
      have hnil : ownCalls id' pool.made = [] := h.ownCalls_eq_nil hid
      show (program id' subject).After (ownCalls id' pool.made) _
      rw [hnil]
      exact .refl _
    · rw [tasks_spawn, Function.update_of_ne hne] at htask
      exact h.running id' subject' rest htask
  case complete =>
    intro id' subject' r hr
    have hlt := h.lt id' subject' (.inr ⟨r, hr⟩)
    refine ⟨(h.complete id' subject' r hr).1, ?_⟩
    have hne : id' ≠ id := by omega
    rw [tasks_spawn, Function.update_of_ne hne]
    exact (h.complete id' subject' r hr).2
  case known =>
    intro entry hentry
    obtain ⟨subject', hknown⟩ := h.known entry hentry
    exact ⟨subject', (known_spawn hnone).mpr (.inr hknown)⟩
  case lt =>
    intro id' subject' hknown
    rcases (known_spawn hnone).mp hknown with ⟨rfl, -⟩ | hknown
    · exact Nat.lt_succ_self _
    · have := h.lt id' subject' hknown
      omega

/-- A call changes no subject. -/
theorem known_call {answer : (op : I.Op) → I.Answer op} (hcall : pool.call id answer = some pool')
    (id' : Nat) (subject' : κ) : pool'.Known id' subject' ↔ pool.Known id' subject' := by
  obtain ⟨subject, op, next, htask, rfl⟩ := call_eq_some.mp hcall
  unfold Known
  by_cases h : id' = id
  · subst h
    simp [htask]
  · simp [Function.update_of_ne h]

/-- A call keeps a pool valid. -/
theorem Valid.call (h : Valid program fresh pool) {answer : (op : I.Op) → I.Answer op}
    (hcall : pool.call id answer = some pool') : Valid program fresh pool' := by
  have hknown := known_call hcall
  obtain ⟨subject, op, next, htask, rfl⟩ := call_eq_some.mp hcall
  constructor
  case running =>
    intro id' subject' rest htask'
    simp only [ownCalls_append, ownCalls_singleton]
    by_cases hne : id' = id
    · subst hne
      simp only [Function.update_self] at htask'
      cases htask'
      rw [if_pos rfl]
      exact (h.running id' subject _ htask).concat _
    · simp only [Function.update_of_ne hne] at htask'
      rw [if_neg (Ne.symm hne), List.append_nil]
      exact h.running id' subject' rest htask'
  case complete =>
    intro id' subject' r hr
    obtain ⟨hruns, hnone⟩ := h.complete id' subject' r hr
    have hne : id' ≠ id := by
      rintro rfl
      rw [htask] at hnone
      cases hnone
    simp only [ownCalls_append, ownCalls_singleton, if_neg (Ne.symm hne), List.append_nil,
      Function.update_of_ne hne]
    exact ⟨hruns, hnone⟩
  case known =>
    intro entry hentry
    rcases List.mem_append.mp hentry with hentry | hentry
    · obtain ⟨subject', hsubject⟩ := h.known entry hentry
      exact ⟨subject', (hknown _ _).mpr hsubject⟩
    · obtain rfl := List.mem_singleton.mp hentry
      exact ⟨subject, (hknown _ _).mpr (.inl ⟨_, htask⟩)⟩
  case lt => exact fun id' subject' hsubject => h.lt id' subject' ((hknown _ _).mp hsubject)

/-- The end of a task changes no subject. -/
theorem known_finish (hfinish : pool.finish id = some (pool', subject, r)) (id' : Nat)
    (subject' : κ) : pool'.Known id' subject' ↔ pool.Known id' subject' := by
  obtain ⟨rest, htask, hr, rfl⟩ := finish_eq_some.mp hfinish
  unfold Known
  by_cases h : id' = id
  · subst h
    simp only [Function.update_self, htask, List.mem_append, List.mem_singleton, Prod.mk.injEq,
      Option.some.injEq, Task.mk.injEq]
    grind
  · simp [h]

/-- The end of a task keeps a pool valid. -/
theorem Valid.finish (h : Valid program fresh pool)
    (hfinish : pool.finish id = some (pool', subject, r)) : Valid program fresh pool' := by
  -- The task moves to those that have ended, with all its calls made.
  have hknown := known_finish hfinish
  obtain ⟨rest, htask, hr, rfl⟩ := finish_eq_some.mp hfinish
  constructor
  case running =>
    intro id' subject' rest' htask'
    by_cases hne : id' = id
    · subst hne
      simp at htask'
    · simp only [Function.update_of_ne hne] at htask'
      exact h.running id' subject' rest' htask'
  case complete =>
    intro id' subject' r' hr'
    rcases List.mem_append.mp hr' with hr' | hr'
    · obtain ⟨hruns, hnone⟩ := h.complete id' subject' r' hr'
      refine ⟨hruns, ?_⟩
      by_cases hne : id' = id
      · subst hne
        simp
      · simp only [Function.update_of_ne hne]
        exact hnone
    · cases List.mem_singleton.mp hr'
      exact ⟨(h.running id subject rest htask).ended hr, by simp⟩
  case known =>
    intro entry hentry
    obtain ⟨subject', hsubject⟩ := h.known entry hentry
    exact ⟨subject', (hknown _ _).mpr hsubject⟩
  case lt => exact fun id' subject' hsubject => h.lt id' subject' ((hknown _ _).mp hsubject)

end Pool
