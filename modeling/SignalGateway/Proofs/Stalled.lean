import SignalGateway.Lib.Machine
import SignalGateway.Proofs.UploadTime

/-!
# `SignalGateway.Proofs.Stalled`: what an infinite hint does to all sends

After a rate limit with an infinite hint the rate of the scheduler is zero and its bucket empty.
Every token check raises then, so the sends that come to one end there, and no send gets as far as
its RPC. Only the response to an RPC can change the rate. `no_rpc_after_endlessLimit` says that
no RPC is started again in any run, unless another one was under way.

* `Paced` is what the program of a task is like: there is a granted call of `acquire` in front of
  every POST, and a rate limit is handed to the scheduler before anything else is done.
* `Steady` holds of every task in every run (`steady_run`).
* `Stalled` is the state that is never left (`stalled_step`).
-/

set_option autoImplicit false

namespace SignalGateway.Proofs.AttachmentBatch

open SignalGateway.AttachmentBatch
open SignalGateway.Rpc (Action SendError rpcResult)
open SignalGateway.RateLimit (Scheduler bucketCapacity defaultRetryAfterSeconds)
open SignalGateway.Proofs.RateLimit (ValidAt acquirePass_cases)

/-! ### The programs of the tasks -/

/-- Where a task is in an attempt: in front of its tokens, between them and the POST, or behind the
response. -/
inductive Phase where
  | waiting
  | granted
  | answered
deriving DecidableEq

section
variable (repr : Json → Except PyError PyStr)
  (listGt : List Json → List Json → Except PyError Bool)

/-- A task gets tokens before every POST, and gives up if it cannot. The scheduler hears of a rate
limit at once. -/
def Paced : Phase → Action Bool → Prop
  | phase, .pure _ => phase ≠ .granted
  | phase, .raise _ => phase ≠ .granted
  | phase, .call (.acquire n) next =>
      phase ≠ .granted ∧ 0 < n ∧ (∀ e, next (.error e) = .raise e) ∧
        ∀ slept, Paced .granted (next (.ok slept))
  | phase, .call (.sleep _) next => phase ≠ .granted ∧ Paced .waiting (next ())
  | phase, .call .monotonic next => phase ≠ .waiting ∧ ∀ now, Paced phase (next now)
  | phase, .call (.post _ _ _) next =>
      phase = .granted ∧ ∀ answer, Paced .answered (next answer) ∧
        ∀ e, rpcResult repr listGt true answer = .error e →
          ∃ n rest, next answer = .call (.feedback e.retryAfter n) rest
  | phase, .call (.reportRpcDuration _ _) next => phase = .answered ∧ Paced .answered (next ())
  | phase, .call (.feedback _ _) next => phase = .answered ∧ Paced .waiting (next ())

end

variable {repr : Json → Except PyError PyStr}
  {listGt : List Json → List Json → Except PyError Bool} {now : ℚ}

/-- The attempts of a batch are paced. -/
theorem paced_sendAttempts {params : List (PyStr × Json)} {n : ℤ} (hn : 0 < n) (left : Nat) :
    ∀ (attempt : Nat) {phase : Phase}, phase ≠ .granted →
      Paced repr listGt phase (Rpc.sendAttempts repr listGt params n attempt left) := by
  induction left with
  | zero => exact fun _ _ hphase => hphase
  | succ left ih =>
    intro attempt phase hphase
    -- An attempt acquires, reads the clock and posts. What follows depends on the response.
    refine ⟨hphase, hn, fun _ => rfl, fun slept => ⟨by simp, fun t0 => ⟨rfl, fun answer => ?_⟩⟩⟩
    beta_reduce
    split
    · next hresult =>
      refine ⟨?_, fun e he => by rw [hresult] at he; cases he⟩
      split
      · exact ⟨by simp, ih _ (by simp)⟩
      · simp [Paced]
    · next result hne hresult =>
      refine ⟨⟨by simp, fun _ => ⟨rfl, by simp [Paced]⟩⟩, fun e he => ?_⟩
      rw [hresult] at he
      cases he
    · next e hresult =>
      refine ⟨⟨rfl, ?_⟩, fun e' he => ?_⟩
      · split
        · simp [Paced]
        · exact ih _ (by simp)
      · rw [hresult] at he
        cases he
        exact ⟨_, _, rfl⟩

/-- A task that has raised waits for nothing. -/
theorem paced_raise (e : SendError) : Paced repr listGt .waiting (.raise e : Action Bool) := by
  simp [Paced]

/-- The program is at a POST. -/
def atPost : Action Bool → Bool
  | .call (.post _ _ _) _ => true
  | _ => false

/-- A task in front of its tokens gives up control at once. -/
theorem settle_waiting {scheduler : Scheduler} {program : Action Bool}
    (h : Paced repr listGt .waiting program) :
    settle now scheduler program = (scheduler, program) := by
  cases program with
  | pure b => rfl
  | raise e => rfl
  | call op next =>
    cases op with
    | monotonic => exact absurd rfl h.1
    | reportRpcDuration rpcDuration n => cases h.1
    | feedback retryAfter n => cases h.1
    | _ => rfl

/-- A task with its tokens runs up to its POST. -/
theorem settle_granted {scheduler : Scheduler} {program : Action Bool}
    (h : Paced repr listGt .granted program) :
    Paced repr listGt .granted (settle now scheduler program).2 ∧
      atPost (settle now scheduler program).2 = true := by
  induction program with
  | pure b => exact absurd rfl h
  | raise e => exact absurd rfl h
  | call op next ih =>
    cases op with
    | acquire n => exact absurd rfl h.1
    | monotonic => exact ih now (h.2 now)
    | post method params timeout => exact ⟨h, rfl⟩
    | reportRpcDuration rpcDuration n => cases h.1
    | feedback retryAfter n => cases h.1
    | sleep seconds => exact absurd rfl h.1

/-- A task with its response runs up to its next wait. -/
theorem settle_answered {program : Action Bool} : ∀ {scheduler : Scheduler},
    Paced repr listGt .answered program →
      Paced repr listGt .waiting (settle now scheduler program).2 := by
  induction program with
  | pure b => exact fun _ => by simp [settle, Paced]
  | raise e => exact fun _ => by simp [settle, Paced]
  | call op next ih =>
    intro scheduler h
    cases op with
    | acquire n => exact ⟨by simp, h.2⟩
    | monotonic => exact ih now (h.2 now)
    | post method params timeout => cases h.1
    | reportRpcDuration rpcDuration n => exact ih () h.2
    | feedback retryAfter n =>
      show Paced repr listGt .waiting (settle now _ (next ())).2
      rw [settle_waiting h.2]
      exact h.2
    | sleep seconds => exact ⟨by simp, h.2⟩

/-! ### The tasks of a run -/

/-- A task between two steps: in front of its tokens, or at its POST. -/
def Steady (repr : Json → Except PyError PyStr)
    (listGt : List Json → List Json → Except PyError Bool) (task : Task) : Prop :=
  Paced repr listGt .waiting task.program ∨
    Paced repr listGt .granted task.program ∧ atPost task.program = true

/-- Wherever a task goes on, it is steady when it gives up control. -/
theorem steady_settle {scheduler : Scheduler} {program : Action Bool} {status : Status} :
    ∀ {phase : Phase}, Paced repr listGt phase program →
      Steady repr listGt ⟨(settle now scheduler program).2, status⟩
  | .waiting, h => by
    rw [settle_waiting h]
    exact .inl h
  | .granted, h => .inr (settle_granted h)
  | .answered, h => .inl (settle_answered h)

variable {s s' : System} {event : Event}

/-- One task is put in place of another. -/
theorem forall_mem_set {P : Task → Prop} {tasks : List Task} (h : ∀ task ∈ tasks, P task) (i : Nat)
    {task : Task} (htask : P task) : ∀ task' ∈ tasks.set i task, P task' := by
  intro task' hmem
  rcases List.mem_or_eq_of_mem_set hmem with hmem | rfl
  · exact h task' hmem
  · exact htask

/-- A task that goes on with a paced program leaves all tasks steady. -/
theorem steady_resume {phase : Phase} {program : Action Bool}
    (h : ∀ task ∈ s.tasks, Steady repr listGt task) (i : Nat)
    (hprogram : Paced repr listGt phase program) :
    ∀ task ∈ (s.resume i program).tasks, Steady repr listGt task :=
  forall_mem_set h i (steady_settle hprogram)

/-- A token check for some tokens: it is refused, or granted, or sleeps, or it raises because the
rate is zero. -/
theorem acquireStep_cases (s : System) (i : Nat) {n : ℤ} (hn : 0 < n)
    (next : Except SendError ℚ → Action Bool) (slept : ℚ) :
    s.acquireStep i n next slept = s.resume i (next (.error (.scheduler ⟨n⟩))) ∨
      (n ≤ s.scheduler.projected s.clock ∧ ∃ scheduler,
        s.acquireStep i n next slept = { s with scheduler }.resume i (next (.ok slept))) ∨
      (s.scheduler.refillRate ≠ 0 ∧ ∃ scheduler status, s.acquireStep i n next slept
        = { s with scheduler, tasks := s.tasks.set i ⟨.call (.acquire n) next, status⟩ }) ∨
      (s.scheduler.refillRate = 0 ∧ s.acquireStep i n next slept
        = { s with scheduler := s.scheduler.refill s.clock }.resume i
            (next (.error (.other .zeroDivisionError)))) := by
  unfold System.acquireStep
  rw [if_neg (not_le.mpr hn)]
  split
  · exact .inl rfl
  · rcases acquirePass_cases s.scheduler n s.clock with
      ⟨hle, hpass⟩ | ⟨-, hrate, hpass⟩ | ⟨-, hrate, hpass⟩
    · rw [hpass]
      exact .inr (.inl ⟨hle, _, rfl⟩)
    · rw [hpass]
      exact .inr (.inr (.inl ⟨hrate, _, _, rfl⟩))
    · rw [hpass]
      exact .inr (.inr (.inr ⟨hrate, rfl⟩))

/-- A start of a batch is one of some files. -/
def SizedStart : Event → Prop
  | .start _ n => 0 < n
  | _ => True

/-- Every event keeps the tasks steady. -/
theorem steady_step (h : s.step repr listGt event now = some s') (hsized : SizedStart event)
    (hs : ∀ task ∈ s.tasks, Steady repr listGt task) :
    ∀ task ∈ s'.tasks, Steady repr listGt task := by
  unfold System.step at h
  split at h
  · cases h
  have hat : ∀ {i : Nat} {task : Task}, s.tasks[i]? = some task → Steady repr listGt task :=
    fun hi => hs _ (List.mem_of_getElem? hi)
  cases event with
  | start params n =>
    cases h
    intro task hmem
    rcases List.mem_append.mp hmem with hmem | hmem
    · exact hs task hmem
    · rw [List.mem_singleton.mp hmem]
      exact .inl (paced_sendAttempts hsized _ _ (by simp))
  | check i =>
    simp only at h
    split at h
    · next n next status htask =>
      obtain ⟨slept, -, rfl⟩ := Option.map_eq_some_iff.mp h
      -- a task at its token check is in front of its tokens
      rcases hat htask with hpaced | ⟨-, ⟨⟩⟩
      obtain ⟨-, hn, hraise, hgranted⟩ := hpaced
      rcases acquireStep_cases (s.tick now) i hn next slept with
        heq | ⟨-, scheduler, heq⟩ | ⟨-, scheduler, status', heq⟩ | ⟨-, heq⟩
      · rw [heq, hraise]
        exact steady_resume (s := s.tick now) hs i (paced_raise _)
      · rw [heq]
        exact steady_resume (s := { s.tick now with scheduler }) hs i (hgranted slept)
      · rw [heq]
        exact forall_mem_set hs i (.inl ⟨by simp, hn, hraise, hgranted⟩)
      · rw [heq, hraise]
        exact steady_resume (s := s.tick now) hs i (paced_raise _)
    · cases h
  | rpcStart i =>
    simp only at h
    split at h
    · next method params timeout next slept htask =>
      cases h
      have hsteady := hat htask
      exact forall_mem_set hs i hsteady
    · cases h
  | rpcEnd i answer =>
    simp only at h
    split at h
    · next method params timeout next htask =>
      cases h
      rcases hat htask with ⟨⟨⟩, -⟩ | ⟨hpaced, -⟩
      exact steady_resume (s := s.tick now) hs i (hpaced.2 answer).1
    · cases h
  | wake i =>
    simp only at h
    split at h
    · next seconds next status htask =>
      obtain ⟨slept, -, rfl⟩ := Option.map_eq_some_iff.mp h
      rcases hat htask with hpaced | ⟨-, ⟨⟩⟩
      exact steady_resume (s := s.tick now) hs i hpaced.2
    · cases h

/-! ### The stalled state -/

/-- The bucket is empty and stays so, and no task has tokens. -/
structure Stalled (repr : Json → Except PyError PyStr)
    (listGt : List Json → List Json → Except PyError Bool) (s : System) : Prop where
  capacity : 0 ≤ s.scheduler.capacity
  rate : s.scheduler.refillRate = 0
  tokens : s.scheduler.tokens = 0
  tasks : ∀ task ∈ s.tasks, Paced repr listGt .waiting task.program

/-- A task goes on in front of its tokens. -/
theorem stalled_resume (hs : Stalled repr listGt s) (i : Nat) {program : Action Bool}
    (h : Paced repr listGt .waiting program) : Stalled repr listGt (s.resume i program) := by
  have hsettle : settle s.clock s.scheduler program = (s.scheduler, program) := settle_waiting h
  unfold System.resume
  rw [hsettle]
  exact ⟨hs.capacity, hs.rate, hs.tokens, forall_mem_set hs.tasks i h⟩

/-- No event leads out of the stalled state, and no RPC is started in it. -/
theorem stalled_step (h : s.step repr listGt event now = some s') (hsized : SizedStart event)
    (hs : Stalled repr listGt s) : Stalled repr listGt s' ∧ ∀ i, event ≠ .rpcStart i := by
  unfold System.step at h
  split at h
  · cases h
  have hat : ∀ {i : Nat} {task : Task}, s.tasks[i]? = some task →
      Paced repr listGt .waiting task.program := fun hi => hs.tasks _ (List.mem_of_getElem? hi)
  have htick : Stalled repr listGt (s.tick now) := ⟨hs.capacity, hs.rate, hs.tokens, hs.tasks⟩
  cases event with
  | start params n =>
    cases h
    refine ⟨⟨hs.capacity, hs.rate, hs.tokens, fun task hmem => ?_⟩, fun i hi => by cases hi⟩
    rcases List.mem_append.mp hmem with hmem | hmem
    · exact hs.tasks task hmem
    · rw [List.mem_singleton.mp hmem]
      exact paced_sendAttempts hsized _ _ (by simp)
  | check i =>
    simp only at h
    split at h
    · next n next status htask =>
      obtain ⟨slept, -, rfl⟩ := Option.map_eq_some_iff.mp h
      obtain ⟨-, hn, hraise, -⟩ := hat htask
      have hempty : (s.tick now).scheduler.projected now = 0 := by
        simp [System.tick, Scheduler.projected, hs.rate, hs.tokens, hs.capacity]
      refine ⟨?_, fun j hj => by cases hj⟩
      rcases acquireStep_cases (s.tick now) i hn next slept with
        heq | ⟨hle, -⟩ | ⟨hrate, -⟩ | ⟨-, heq⟩
      · rw [heq, hraise]
        exact stalled_resume htick i (paced_raise _)
      · -- an empty bucket grants nothing
        have hclock : (s.tick now).clock = now := rfl
        rw [hclock, hempty] at hle
        have hn' : (0 : ℚ) < n := by exact_mod_cast hn
        exact absurd hle (not_le.mpr hn')
      · exact absurd hs.rate hrate
      · rw [heq, hraise]
        exact stalled_resume (s := { s.tick now with
          scheduler := (s.tick now).scheduler.refill now })
          ⟨hs.capacity, hs.rate, hempty, hs.tasks⟩ i (paced_raise _)
    · cases h
  | rpcStart i =>
    simp only at h
    split at h
    · next method params timeout next slept htask => cases (hat htask).1
    · cases h
  | rpcEnd i answer =>
    simp only at h
    split at h
    · next method params timeout next htask => cases (hat htask).1
    · cases h
  | wake i =>
    simp only at h
    split at h
    · next seconds next status htask =>
      obtain ⟨slept, -, rfl⟩ := Option.map_eq_some_iff.mp h
      exact ⟨stalled_resume htick i (hat htask).2, fun j hj => by cases hj⟩
    · cases h

/-! ### Runs -/

/-- The step of the system at a timed event. -/
def stepAt (repr : Json → Except PyError PyStr)
    (listGt : List Json → List Json → Except PyError Bool) (s : System) (e : Event × ℚ) :
    Option System := s.step repr listGt e.1 e.2

/-- The tasks of every run are steady. -/
theorem steady_run {events : List (Event × ℚ)} (hvalid : ValidAt s.scheduler s.clock)
    (hs : ∀ task ∈ s.tasks, Steady repr listGt task)
    (hrun : Machine.run (stepAt repr listGt) s events = some s') :
    (∀ e ∈ events, SizedStart e.1) →
      ValidAt s'.scheduler s'.clock ∧ ∀ task ∈ s'.tasks, Steady repr listGt task := by
  refine Machine.run_induction (motive := fun events s' => (∀ e ∈ events, SizedStart e.1) →
    ValidAt s'.scheduler s'.clock ∧ ∀ task ∈ s'.tasks, Steady repr listGt task)
    (fun _ => ⟨hvalid, hs⟩) ?_ hrun
  intro es s₁ e s₂ ih hstep hsized
  obtain ⟨hvalid₁, hs₁⟩ := ih fun e he => hsized e (List.mem_append_left _ he)
  have hspec := (step_spec hstep hvalid₁).2
  exact ⟨hspec.clock_eq ▸ hspec.valid,
    steady_step hstep (hsized e (List.mem_append_right _ (List.mem_singleton_self e))) hs₁⟩

/-- An infinite hint stalls all tasks, unless one of the others is at its POST. -/
theorem stalled_of_endlessLimit {i : Nat} {answer : Except PyError Rpc.Response} {message : PyStr}
    (h : s.step repr listGt (.rpcEnd i answer) now = some s')
    (hvalid : ValidAt s.scheduler s.clock) (hs : ∀ task ∈ s.tasks, Steady repr listGt task)
    (hlimit : rpcResult repr listGt true answer = .error ⟨message, some .inf⟩)
    (halone : ∀ j task, j ≠ i → s.tasks[j]? = some task → atPost task.program = false) :
    Stalled repr listGt s' := by
  unfold System.step at h
  split at h
  · cases h
  simp only at h
  split at h
  · next method params timeout next htask =>
    cases h
    have htask' : s.tasks[i]? = some ⟨.call (.post method params timeout) next, .inFlight⟩ := htask
    rcases hs _ (List.mem_of_getElem? htask') with ⟨⟨⟩, -⟩ | ⟨hpaced, -⟩
    obtain ⟨hanswered, hfeedback⟩ := hpaced.2 answer
    obtain ⟨n, rest, hnext⟩ := hfeedback _ hlimit
    rw [hnext] at hanswered ⊢
    have hrest : Paced repr listGt .waiting (rest ()) := hanswered.2
    have hsettle : settle now s.scheduler (.call (.feedback (some .inf) n) rest)
        = (s.scheduler.feedback (some .inf) n now, rest ()) := settle_waiting hrest
    have hresume : ((s.tick now).resume i (.call (.feedback (some .inf) n) rest)).scheduler
        = s.scheduler.feedback (some .inf) n now := congrArg Prod.fst hsettle
    have hprogram : (settle now s.scheduler (.call (.feedback (some .inf) n) rest)).2 = rest () :=
      congrArg Prod.snd hsettle
    refine ⟨?_, ?_, ?_, fun task hmem => ?_⟩
    · rw [hresume]
      exact hvalid.tokens_nonneg.trans hvalid.tokens_le
    · rw [hresume]
      rfl
    · rw [hresume]
      rfl
    · -- the other tasks are not at their POSTs, so they are in front of their tokens
      have hmem' : task ∈ s.tasks.set i
          ⟨(settle now s.scheduler (.call (.feedback (some .inf) n) rest)).2,
            statusOf now (settle now s.scheduler (.call (.feedback (some .inf) n) rest)).2⟩ := hmem
      rw [hprogram] at hmem'
      obtain ⟨j, hj⟩ := List.getElem?_of_mem hmem'
      rw [List.getElem?_set] at hj
      split at hj
      · split at hj
        · cases hj
          exact hrest
        · cases hj
      · next hne =>
        rcases hs _ (List.mem_of_getElem? hj) with hwaiting | ⟨-, hpost⟩
        · exact hwaiting
        · rw [halone j task (Ne.symm hne) hj] at hpost
          cases hpost
  · cases h

/-- Once an RPC is answered with an infinite hint while no other task is at its RPC, the bucket is
empty for good, and no RPC is started again. -/
theorem no_rpc_after_endlessLimit {capacity defaultRetryAfter t₀ : ℚ} (hcapacity : 0 < capacity)
    (hretry : 0 < defaultRetryAfter) {before after : List (Event × ℚ)} {s s' s'' : System} {i : Nat}
    {answer : Except PyError Rpc.Response} {now : ℚ} {message : PyStr}
    (hsized : ∀ e ∈ before ++ after, SizedStart e.1)
    (hbefore : Machine.run (stepAt repr listGt) (.create capacity defaultRetryAfter t₀) before
      = some s)
    (halone : ∀ j task, j ≠ i → s.tasks[j]? = some task → atPost task.program = false)
    (hlimit : rpcResult repr listGt true answer = .error ⟨message, some .inf⟩)
    (hend : s.step repr listGt (.rpcEnd i answer) now = some s')
    (hafter : Machine.run (stepAt repr listGt) s' after = some s'') :
    s''.scheduler.tokens = 0 ∧ s''.scheduler.refillRate = 0 ∧
      ∀ e ∈ after, ∀ j, e.1 ≠ .rpcStart j := by
  have hvalid : ValidAt (System.create capacity defaultRetryAfter t₀).scheduler t₀ :=
    ⟨hcapacity.le, le_rfl, (one_div_pos.mpr hretry).le, le_rfl⟩
  obtain ⟨hvalid₁, hs⟩ := steady_run hvalid (fun task hmem => absurd hmem List.not_mem_nil) hbefore
    fun e he => hsized e (List.mem_append_left _ he)
  -- The hint stalls the system, and a stalled system stays so.
  have hstalled := stalled_of_endlessLimit hend hvalid₁ hs hlimit halone
  have hrun := Machine.run_induction (motive := fun events s'' => (∀ e ∈ events, SizedStart e.1) →
    Stalled repr listGt s'' ∧ ∀ e ∈ events, ∀ j, e.1 ≠ Event.rpcStart j)
    (fun _ => ⟨hstalled, fun e he => absurd he List.not_mem_nil⟩)
    (fun es s₁ e s₂ ih hstep hsized => by
      obtain ⟨hs₁, hnone⟩ := ih fun e he => hsized e (List.mem_append_left _ he)
      obtain ⟨hs₂, hlast⟩ := stalled_step hstep
        (hsized e (List.mem_append_right _ (List.mem_singleton_self e))) hs₁
      refine ⟨hs₂, fun e' he' => ?_⟩
      rcases List.mem_append.mp he' with he' | he'
      · exact hnone e' he'
      · rw [List.mem_singleton.mp he']
        exact hlast) hafter
  obtain ⟨hend', hnone⟩ := hrun fun e he => hsized e (List.mem_append_right _ he)
  exact ⟨hend'.tokens, hend'.rate, hnone⟩

/-- A batch of thirty files is at its RPC, and a batch of thirty sleeps behind it. -/
def atRpc : List (Event × ℚ) :=
  [(.start [] 30, 0), (.check 0, 0), (.rpcStart 0, 0), (.start [] 30, 1), (.check 1, 1)]

/-- Both give up at their next checks, and so does another batch an hour later. -/
def afterwards : List (Event × ℚ) :=
  [(.check 0, 2), (.check 1, 100), (.start [] 1, 3600), (.check 2, 3600)]

/-- A rate limit with the hint `Infinity`. -/
def endless : Rpc.Response :=
  ⟨200, .ok (.obj [(lit "error", .obj [(lit "code", .int (-5)), (lit "data",
    .obj [(lit "response", .obj [(lit "results",
      .arr [.obj [(lit "retryAfterSeconds", .float .inf)]])])])])])⟩

/-- After an endless limit, the second batch is never sent. -/
theorem no_rpc_after_endlessLimit_twoBatches :
    ∃ s s' s'', Machine.run (stepAt (fun _ => .ok []) (fun _ _ => .ok false))
        (.create bucketCapacity defaultRetryAfterSeconds 0) atRpc = some s ∧
      s.step (fun _ => .ok []) (fun _ _ => .ok false) (.rpcEnd 0 (.ok endless)) 2 = some s' ∧
      Machine.run (stepAt (fun _ => .ok []) (fun _ _ => .ok false)) s' afterwards = some s'' ∧
      s''.scheduler.tokens = 0 ∧ s''.scheduler.refillRate = 0 ∧
        ∀ e ∈ afterwards, ∀ j, e.1 ≠ .rpcStart j := by
  have hrun : ((Machine.run (stepAt (fun _ => .ok []) (fun _ _ => .ok false))
      (.create bucketCapacity defaultRetryAfterSeconds 0) atRpc).bind fun s =>
        (s.step (fun _ => .ok []) (fun _ _ => .ok false) (.rpcEnd 0 (.ok endless)) 2).bind fun s' =>
          (Machine.run (stepAt (fun _ => .ok []) (fun _ _ => .ok false)) s' afterwards).map fun _ =>
            s.tasks.tail.all fun task => !atPost task.program) = some true := by
    decide +kernel
  obtain ⟨s, hbefore, hrest⟩ := Option.bind_eq_some_iff.mp hrun
  obtain ⟨s', hend, hrest⟩ := Option.bind_eq_some_iff.mp hrest
  obtain ⟨s'', hafter, htail⟩ := Option.map_eq_some_iff.mp hrest
  have halone : ∀ j task, j ≠ 0 → s.tasks[j]? = some task → atPost task.program = false := by
    intro j task hj htask
    obtain ⟨j, rfl⟩ := Nat.exists_eq_succ_of_ne_zero hj
    have hmem : task ∈ s.tasks.tail := List.mem_of_getElem? (List.getElem?_tail.trans htask)
    simpa using List.all_eq_true.mp htail task hmem
  have hsized : ∀ e ∈ atRpc ++ afterwards, SizedStart e.1 := by
    simp [atRpc, afterwards, SizedStart]
  exact ⟨s, s', s'', hbefore, hend, hafter, no_rpc_after_endlessLimit
    (by norm_num [bucketCapacity]) (by norm_num [defaultRetryAfterSeconds]) hsized hbefore halone
    (by rfl) hend hafter⟩

end SignalGateway.Proofs.AttachmentBatch
