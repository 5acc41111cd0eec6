import SignalGateway.BackgroundTasks
import SignalGateway.Proofs.CallbackServer
import SignalGateway.Proofs.Headings
import SignalGateway.Proofs.WireText

/-!
# `SignalGateway.Proofs.BackgroundTasks`: deliveries do not disturb each other

`Inv` ties the tasks to the records of the endpoint: there is a task for each scheduled callback,
its calls are those of its own `dispatch_callback`, and the server with its records is a run of
`CallbackServer`. `inv_step` is the step lemma and `inv_run` the run lemma.

Five results follow for any interleaving. The calls of each callback are a run of its delivery
alone (`deliveries_alone`), and its POSTs go to its own recipient (`posts_of_callback`). A text
counts as delivered exactly if the daemon has taken all of it (`delivered_in_full`). The
deliveries of one key take turns (`same_key_in_turn`), and once one of them has delivered the
reply, nothing is sent for the key until the TTL is over (`silent_after_delivery`).

The proofs rest on `Lib.Pool`. `step_cases` says what an event does to the server and to the
pool, and `Inv.request`, `Inv.reply` and `Inv.tasks` are the three cases of the step lemma:

* a request may schedule one task, under a number that was free;
* the end of a reply ends its task and is recorded by the server;
* a task may also make a call, or end without a reply.

`same_key_in_turn` needs the order of two deliveries of one key, which `InTurn` reads off the
records. `silent_after_delivery` carries `Silent` along the run: since the delivery has marked
its key, the key stays marked until the TTL is over, so no new delivery of it is accepted.
-/

set_option autoImplicit false

namespace SignalGateway.Proofs.BackgroundTasks

open SignalGateway.Dispatch SignalGateway.CallbackServer SignalGateway.BackgroundTasks
open SignalGateway.Proofs.CallbackServer (Accepted Finished Unfinished DeliveredWithin
  answerComplete_cases)

/-! ### What one event does -/

/-- A task for the job was scheduled under the number. -/
def Scheduled (records : List Record) (id : Nat) (job : Job) : Prop :=
  ∃ record ∈ records, scheduledBy record = some (id, job)

/-- What the last record schedules is added. -/
theorem scheduled_append {records : List Record} {record : Record} {id : Nat} {job : Job} :
    Scheduled (records ++ [record]) id job ↔
      Scheduled records id job ∨ scheduledBy record = some (id, job) := by
  simp [Scheduled, or_and_right, exists_or]

/-- The jobs that mark are the accepted deliveries. -/
theorem scheduled_iff_accepted {records : List Record} {id : Nat} {payload : CallbackPayload} :
    Scheduled records id ⟨payload, true⟩ ↔ Accepted records ⟨id, payload⟩ := by
  constructor
  · rintro ⟨record, hrecord, h⟩
    unfold scheduledBy at h
    split at h <;> cases h
    exact hrecord
  · exact fun h => ⟨_, h, rfl⟩

section
variable {program : Nat → Job → Prog Outbound.calls PyError Bool} {cfg : Config}
  {ttl sweepInterval t₀ : ℚ} {s s' : System} {e : BackgroundTasks.Event}

/-- An event is a step of the server or a step of a task, and the end of a reply is both. -/
theorem step_cases (h : s.step program cfg e = some s') :
    (∃ id request now server record, e = .request id request now ∧
        CallbackServer.step cfg s.server (.request id request now) = some (server, record) ∧
        s' = ⟨server, schedule program s.pool record, s.records ++ [record]⟩) ∨
    (∃ id answer pool, e = .answered id answer ∧ s.pool.call id answer = some pool ∧
        s' = { s with pool }) ∨
    (∃ id now pool payload r server record, e = .finish id now ∧
        s.pool.finish id = some (pool, ⟨payload, true⟩, r) ∧
        CallbackServer.step cfg s.server (.finish ⟨id, payload⟩ (outcome r) now)
          = some (server, record) ∧
        s' = ⟨server, pool, s.records ++ [record]⟩) ∨
    (∃ id now pool payload r, e = .finish id now ∧
        s.pool.finish id = some (pool, ⟨payload, false⟩, r) ∧ s' = { s with pool }) := by
  cases e with
  | request id request now =>
    simp only [System.step, Option.bind_eq_bind, Option.bind_eq_some_iff] at h
    obtain ⟨⟨server, record⟩, hstep, heq⟩ := h
    exact .inl ⟨id, request, now, server, record, rfl, hstep, (Option.some.inj heq).symm⟩
  | answered id answer =>
    simp only [System.step, Option.bind_eq_bind, Option.bind_eq_some_iff] at h
    obtain ⟨pool, hcall, heq⟩ := h
    exact .inr (.inl ⟨id, answer, pool, rfl, hcall, (Option.some.inj heq).symm⟩)
  | finish id now =>
    simp only [System.step, Option.bind_eq_bind, Option.bind_eq_some_iff] at h
    obtain ⟨⟨pool, ⟨payload, marks⟩, r⟩, hfinish, h⟩ := h
    -- Only a task of an accepted callback reports to the server.
    cases marks with
    | true =>
      obtain ⟨⟨server, record⟩, hstep, heq⟩ := Option.bind_eq_some_iff.mp h
      exact .inr (.inr (.inl ⟨id, now, pool, payload, r, server, record, rfl, hfinish, hstep,
        (Option.some.inj heq).symm⟩))
    | false =>
      exact .inr (.inr (.inr ⟨id, now, pool, payload, r, rfl, hfinish,
        (Option.some.inj h).symm⟩))

/-- What the record of a request is, and which numbers are free behind it. -/
theorem server_request {server server' : Server} {id : Nat} {request : Request} {now : ℚ}
    {record : Record}
    (h : CallbackServer.step cfg server (.request id request now) = some (server', record)) :
    server.nextId ≤ id ∧ server'.nextId = id + 1 ∧ ∃ answer, record = .answered id answer := by
  rcases CallbackServer.step_cases h with ⟨id', request', now', answer, he, hid, -, -, -, rfl, rfl⟩ |
    ⟨id', request', now', p, he, hid, -, -, -, rfl, rfl⟩ | ⟨d, outcome, now', he, -⟩
  · cases he
    exact ⟨hid, rfl, _, rfl⟩
  · cases he
    exact ⟨hid, rfl, _, rfl⟩
  · cases he

/-- The end of a delivery frees its key. -/
theorem server_finish {server server' : Server} {d : Delivery} {outcome : Outcome} {now : ℚ}
    {record : Record}
    (h : CallbackServer.step cfg server (.finish d outcome now) = some (server', record)) :
    server'.nextId = server.nextId ∧ record = .finished d outcome.delivered now ∧
      d.key ∉ server'.app.inFlight := by
  rcases CallbackServer.step_cases h with ⟨id', request', now', answer, he, -⟩ |
    ⟨id', request', now', p, he, -⟩ | ⟨d', outcome', now', he, -, -, rfl, rfl⟩
  · cases he
  · cases he
  · cases he
    exact ⟨rfl, rfl, Finset.notMem_erase _ _⟩

/-- A request schedules at most one task, under its own number. -/
theorem schedule_cases (program : Nat → Job → Prog Outbound.calls PyError Bool)
    (pool : Pool Outbound.calls PyError Bool Job) (id : Nat) (answer : Except PyError Answer) :
    (scheduledBy (.answered id answer) = none ∧ schedule program pool (.answered id answer) = pool) ∨
      ∃ job, scheduledBy (.answered id answer) = some (id, job) ∧
        schedule program pool (.answered id answer) = pool.spawn id job (program id job) := by
  cases hscheduled : scheduledBy (.answered id answer) with
  | none => exact .inl ⟨rfl, by rw [schedule, hscheduled]⟩
  | some task =>
    obtain ⟨id', job⟩ := task
    obtain rfl : id' = id := by
      unfold scheduledBy at hscheduled
      split at hscheduled <;> cases hscheduled <;> rename_i heq <;> cases heq <;> rfl
    exact .inr ⟨job, rfl, by rw [schedule, hscheduled]⟩

/-- A request leaves the other tasks alone. -/
theorem tasks_schedule {server server' : Server} {id id' : Nat} {request : Request} {now : ℚ}
    {record : Record} {pool : Pool Outbound.calls PyError Bool Job}
    (h : CallbackServer.step cfg server (.request id request now) = some (server', record))
    (hne : id' ≠ id) : (schedule program pool record).tasks id' = pool.tasks id' := by
  obtain ⟨-, -, answer, rfl⟩ := server_request h
  rcases schedule_cases program pool id answer with ⟨-, hpool⟩ | ⟨job, -, hpool⟩
  · rw [hpool]
  · rw [hpool, Pool.tasks_spawn, Function.update_of_ne hne]

/-! ### The invariant -/

/-- What holds of the system in every run. -/
structure Inv (program : Nat → Job → Prog Outbound.calls PyError Bool) (cfg : Config)
    (ttl sweepInterval t₀ : ℚ) (s : System) : Prop where
  server : ∃ events,
    CallbackServer.run cfg (.create ttl sweepInterval t₀) events = some (s.server, s.records)
  valid : s.pool.Valid program s.server.nextId
  known_iff : ∀ id job, s.pool.Known id job ↔ Scheduled s.records id job
  finished : ∀ d ok t, .finished d ok t ∈ s.records →
    ∃ r, (d.id, ⟨d.payload, true⟩, r) ∈ s.pool.ended ∧ ok = (outcome r).delivered

/-- The invariant of a fresh server. -/
theorem inv_create : Inv program cfg ttl sweepInterval t₀ (.create ttl sweepInterval t₀) where
  server := ⟨[], rfl⟩
  valid := Pool.valid_empty
  known_iff id job := by simp [Pool.Known, System.create, Pool.empty, Scheduled]
  finished d ok t h := absurd h List.not_mem_nil

/-- One more step of the server. -/
theorem run_server_concat {server₁ server₂ : Server} {record : Record}
    {event : CallbackServer.Event} (hstep : CallbackServer.step cfg server₁ event
      = some (server₂, record)) :
    ∀ {events : List CallbackServer.Event} {server : Server} {records : List Record},
      CallbackServer.run cfg server events = some (server₁, records) →
      CallbackServer.run cfg server (events ++ [event]) = some (server₂, records ++ [record]) := by
  intro events
  induction events with
  | nil =>
    intro server records h
    simp only [CallbackServer.run, Option.some.injEq, Prod.mk.injEq] at h
    obtain ⟨rfl, rfl⟩ := h
    exact CallbackServer.run_cons_eq_some.mpr ⟨server₂, record, [], hstep, rfl, rfl⟩
  | cons event' events ih =>
    intro server records h
    obtain ⟨server', record', records', hfirst, hrest, rfl⟩ :=
      CallbackServer.run_cons_eq_some.mp h
    exact CallbackServer.run_cons_eq_some.mpr ⟨server', record', _, hfirst, ih hrest, rfl⟩

/-- The records say about the server what they say in `CallbackServer`. -/
theorem Inv.base (h : Inv program cfg ttl sweepInterval t₀ s) :
    CallbackServer.Inv ttl s.server s.records := by
  obtain ⟨events, hrun⟩ := h.server
  simpa using CallbackServer.inv_run (CallbackServer.inv_create ttl sweepInterval t₀) hrun

/-- A step of the server extends its run. -/
theorem Inv.server_step (h : Inv program cfg ttl sweepInterval t₀ s)
    {event : CallbackServer.Event} {server : Server} {record : Record}
    (hstep : CallbackServer.step cfg s.server event = some (server, record)) :
    ∃ events, CallbackServer.run cfg (.create ttl sweepInterval t₀) events
      = some (server, s.records ++ [record]) := by
  obtain ⟨events, hrun⟩ := h.server
  exact ⟨events ++ [event], run_server_concat hstep hrun⟩

/-- A request may schedule one task, under its own number. -/
theorem Inv.request (h : Inv program cfg ttl sweepInterval t₀ s) {id : Nat} {request : Request}
    {now : ℚ} {server : Server} {record : Record}
    (hstep : CallbackServer.step cfg s.server (.request id request now)
      = some (server, record)) :
    Inv program cfg ttl sweepInterval t₀
      ⟨server, schedule program s.pool record, s.records ++ [record]⟩ := by
  -- A request ends no delivery, and starts one task at most.
  obtain ⟨hid, hnext, answer, rfl⟩ := server_request hstep
  have hfinished : ∀ d ok t, .finished d ok t ∈ s.records ++ [.answered id answer] →
      .finished d ok t ∈ s.records := by
    intro d ok t hmem
    rcases List.mem_append.mp hmem with hmem | hmem
    · exact hmem
    · cases List.mem_singleton.mp hmem
  rcases schedule_cases program s.pool id answer with ⟨hscheduled, hpool⟩ |
    ⟨job, hscheduled, hpool⟩
  · constructor
    case server => exact h.server_step hstep
    case valid =>
      show Pool.Valid program server.nextId _
      rw [hpool]
      exact h.valid.mono (by omega)
    case known_iff =>
      intro id' job'
      rw [hpool, scheduled_append, hscheduled, h.known_iff]
      simp
    case finished =>
      intro d ok t hmem
      rw [hpool]
      exact h.finished d ok t (hfinished d ok t hmem)
  · constructor
    case server => exact h.server_step hstep
    case valid =>
      show Pool.Valid program server.nextId _
      rw [hpool, hnext]
      exact h.valid.spawn hid job
    case known_iff =>
      intro id' job'
      rw [hpool, Pool.known_spawn (h.valid.tasks_eq_none hid), scheduled_append, hscheduled,
        h.known_iff]
      simp only [Option.some.injEq, Prod.mk.injEq]
      grind
    case finished =>
      intro d ok t hmem
      rw [hpool]
      exact h.finished d ok t (hfinished d ok t hmem)

/-- The end of a reply is that of its task. -/
theorem Inv.reply (h : Inv program cfg ttl sweepInterval t₀ s) {id : Nat} {now : ℚ}
    {pool : Pool Outbound.calls PyError Bool Job} {payload : CallbackPayload}
    {r : Except PyError Bool} {server : Server} {record : Record}
    (hfinish : s.pool.finish id = some (pool, ⟨payload, true⟩, r))
    (hstep : CallbackServer.step cfg s.server (.finish ⟨id, payload⟩ (outcome r) now)
      = some (server, record)) :
    Inv program cfg ttl sweepInterval t₀ ⟨server, pool, s.records ++ [record]⟩ := by
  -- The record is the outcome with which the task has ended.
  obtain ⟨hnext, rfl, -⟩ := server_finish hstep
  have hended := Pool.ended_finish hfinish
  constructor
  case server => exact h.server_step hstep
  case valid =>
    show Pool.Valid program server.nextId _
    rw [hnext]
    exact h.valid.finish hfinish
  case known_iff =>
    intro id' job'
    rw [Pool.known_finish hfinish, h.known_iff, scheduled_append]
    simp [scheduledBy]
  case finished =>
    intro d ok t hmem
    rw [hended]
    rcases List.mem_append.mp hmem with hmem | hmem
    · obtain ⟨r', hr', hok⟩ := h.finished d ok t hmem
      exact ⟨r', List.mem_append_left _ hr', hok⟩
    · cases List.mem_singleton.mp hmem
      exact ⟨r, by simp, rfl⟩

/-- The tasks may go on without the server. -/
theorem Inv.tasks (h : Inv program cfg ttl sweepInterval t₀ s)
    {pool : Pool Outbound.calls PyError Bool Job} (hvalid : pool.Valid program s.server.nextId)
    (hknown : ∀ id job, pool.Known id job ↔ s.pool.Known id job)
    (hended : ∀ entry ∈ s.pool.ended, entry ∈ pool.ended) :
    Inv program cfg ttl sweepInterval t₀ { s with pool } where
  server := h.server
  valid := hvalid
  known_iff id job := (hknown id job).trans (h.known_iff id job)
  finished d ok t hmem := by
    obtain ⟨r, hr, hok⟩ := h.finished d ok t hmem
    exact ⟨r, hended _ hr, hok⟩

/-- One event keeps the invariant. -/
theorem inv_step (h : Inv program cfg ttl sweepInterval t₀ s)
    (hstep : s.step program cfg e = some s') : Inv program cfg ttl sweepInterval t₀ s' := by
  rcases step_cases hstep with ⟨id, request, now, server, record, rfl, hserver, rfl⟩ |
    ⟨id, answer, pool, rfl, hcall, rfl⟩ |
    ⟨id, now, pool, payload, r, server, record, rfl, hfinish, hserver, rfl⟩ |
    ⟨id, now, pool, payload, r, rfl, hfinish, rfl⟩
  · exact h.request hserver
  · refine h.tasks (h.valid.call hcall) (Pool.known_call hcall) fun entry hentry => ?_
    obtain ⟨subject, op, next, -, rfl⟩ := Pool.call_eq_some.mp hcall
    exact hentry
  · exact h.reply hfinish hserver
  · refine h.tasks (h.valid.finish hfinish) (Pool.known_finish hfinish)
      fun entry hentry => ?_
    rw [Pool.ended_finish hfinish]
    exact List.mem_append_left _ hentry

/-- A run keeps the invariant. -/
theorem inv_run {events : List BackgroundTasks.Event}
    (hrun : Machine.run (System.step program cfg) (.create ttl sweepInterval t₀) events
      = some s) : Inv program cfg ttl sweepInterval t₀ s :=
  Machine.run_induction (motive := fun _ s => Inv program cfg ttl sweepInterval t₀ s) inv_create
    (fun _ _ _ _ h hstep => inv_step h hstep) hrun

/-- The calls of a task are those of its program so far. -/
theorem Inv.after (h : Inv program cfg ttl sweepInterval t₀ s) {id : Nat} {job : Job}
    (hknown : s.pool.Known id job) :
    ∃ rest, (program id job).After (Pool.ownCalls id s.pool.made) rest := by
  rcases hknown with ⟨rest, htask⟩ | ⟨r, hr⟩
  · exact ⟨rest, h.valid.running id job rest htask⟩
  · exact Prog.Runs.after (h.valid.complete id job r hr).1

/-! ### Deliveries of one key take turns -/

/-- The records of two deliveries of one key: the earlier one has finished. -/
def InTurn (records : List Record) : Prop :=
  ∀ d e : Delivery, Accepted records d → Accepted records e → d.key = e.key → d.id < e.id →
    Finished records d

/-- A delivery is accepted when every other of its key has finished. -/
theorem inTurn_step {server server' : Server} {records : List Record} {record : Record}
    {event : CallbackServer.Event} (hinv : CallbackServer.Inv ttl server records)
    (h : InTurn records) (hstep : CallbackServer.step cfg server event = some (server', record)) :
    InTurn (records ++ [record]) := by
  intro d e hd he hkey hlt
  -- what is true of the earlier records stays true
  have hmono : ∀ {d : Delivery}, Finished records d → Finished (records ++ [record]) d :=
    fun ⟨ok, t, hmem⟩ => ⟨ok, t, List.mem_append_left _ hmem⟩
  have hcases : ∀ {d : Delivery}, Accepted (records ++ [record]) d →
      Accepted records d ∨ record = .answered d.id (.ok (.accepted d.payload)) := by
    intro d hd
    rcases List.mem_append.mp hd with hd | hd
    · exact .inl hd
    · exact .inr (List.mem_singleton.mp hd).symm
  rcases CallbackServer.step_cases hstep with
    ⟨id, request, now, answer, -, hid, -, hne, -, rfl, -⟩ |
    ⟨id, request, now, p, -, hid, -, -, -, rfl, -⟩ | ⟨d', outcome, now, -, -, -, rfl, -⟩
  · have hold : ∀ {d : Delivery}, Accepted (records ++ [.answered id answer]) d →
        Accepted records d := fun {d} hd => (hcases hd).resolve_right fun heq =>
      hne d.payload (Record.answered.inj heq).2
    exact hmono (h d e (hold hd) (hold he) hkey hlt)
  · -- the number of an older delivery is less than that of the new one
    have hd' : Accepted records d := (hcases hd).resolve_right fun heq => by
      have hid' := (Record.answered.inj heq).1
      rcases hcases he with he | heq'
      · have := hinv.id_lt e he
        omega
      · have := (Record.answered.inj heq').1
        omega
    rcases hcases he with he | heq
    · exact hmono (h d e hd' he hkey hlt)
    · have haccepted := (Except.ok.inj (Record.answered.inj heq).2)
      rcases answerComplete_cases server.app p now with ⟨-, hans⟩ | ⟨-, hfree, hans⟩
      · rw [hans] at haccepted
        cases haccepted
      · rw [hans] at haccepted
        obtain rfl := Answer.accepted.inj haccepted
        refine hmono (not_not.mp fun hfin => hfree ((hinv.inFlight_iff _).mpr ⟨d, ?_, hkey⟩))
        exact (hinv.running_iff d).mpr ⟨hd', hfin⟩
  · have hold : ∀ {d : Delivery}, Accepted (records ++ [.finished d' outcome.delivered now]) d →
        Accepted records d := fun {d} hd => (hcases hd).resolve_right fun heq => by cases heq
    exact hmono (h d e (hold hd) (hold he) hkey hlt)

/-- The calls of an earlier delivery of a key come before those of a later one. -/
def CallsInTurn (pool : Pool Outbound.calls PyError Bool Job) : Prop :=
  pool.made.Pairwise fun call call' => ∀ p p' : CallbackPayload,
    pool.Known call.1 ⟨p, true⟩ → pool.Known call'.1 ⟨p', true⟩ →
      p.messageKey = p'.messageKey → call.1 ≤ call'.1

/-- A reply that is still being delivered has not finished. -/
theorem Inv.not_finished (h : Inv program cfg ttl sweepInterval t₀ s) {d : Delivery}
    {task : Pool.Task Outbound.calls PyError Bool Job} (htask : s.pool.tasks d.id = some task) :
    ¬ Finished s.records d := by
  rintro ⟨ok, t, hmem⟩
  obtain ⟨r, hr, -⟩ := h.finished d ok t hmem
  rw [(h.valid.complete _ _ _ hr).2] at htask
  cases htask

/-- The tasks that mark are the accepted deliveries. -/
theorem Inv.known_iff_accepted (h : Inv program cfg ttl sweepInterval t₀ s) {id : Nat}
    {payload : CallbackPayload} :
    s.pool.Known id ⟨payload, true⟩ ↔ Accepted s.records ⟨id, payload⟩ :=
  (h.known_iff _ _).trans scheduled_iff_accepted

/-- A call after a request is still that of the task which made it. -/
theorem known_of_request (h : Inv program cfg ttl sweepInterval t₀ s) {id : Nat}
    {request : Request} {now : ℚ} {server : Server} {record : Record}
    (hstep : CallbackServer.step cfg s.server (.request id request now)
      = some (server, record)) {call : Nat × Outbound.calls.Event} (hcall : call ∈ s.pool.made)
    {job : Job} (hknown : (schedule program s.pool record).Known call.1 job) :
    s.pool.Known call.1 job := by
  obtain ⟨subject, hsubject⟩ := h.valid.known call hcall
  have hlt := h.valid.lt _ _ hsubject
  obtain ⟨hid, -, -⟩ := server_request hstep
  have hnext := h.request hstep
  rcases (scheduled_append.mp ((hnext.known_iff _ _).mp hknown)) with hold | hnew
  · exact (h.known_iff _ _).mpr hold
  · -- a number that the request has taken is new
    obtain ⟨-, -, answer, rfl⟩ := server_request hstep
    have heq : call.1 = id := by
      unfold scheduledBy at hnew
      split at hnew <;> cases hnew <;> rename_i heq <;> cases heq <;> rfl
    omega

/-- Scheduling a task makes no call. -/
theorem made_request {pool : Pool Outbound.calls PyError Bool Job} {record : Record} :
    (schedule program pool record).made = pool.made := by
  unfold schedule
  split <;> rfl

/-- One event keeps the deliveries of a key in turn. -/
theorem turns_step (h : Inv program cfg ttl sweepInterval t₀ s) (hturn : InTurn s.records)
    (hcalls : CallsInTurn s.pool) (hstep : s.step program cfg e = some s') :
    InTurn s'.records ∧ CallsInTurn s'.pool := by
  rcases step_cases hstep with ⟨id, request, now, server, record, rfl, hserver, rfl⟩ |
    ⟨id, answer, pool, rfl, hcall, rfl⟩ |
    ⟨id, now, pool, payload, r, server, record, rfl, hfinish, hserver, rfl⟩ |
    ⟨id, now, pool, payload, r, rfl, hfinish, rfl⟩
  · refine ⟨inTurn_step h.base hturn hserver, ?_⟩
    show (schedule program s.pool record).made.Pairwise _
    rw [made_request]
    exact hcalls.imp_of_mem fun hx hy hle p p' hp hp' =>
      hle p p' (known_of_request h hserver hx hp) (known_of_request h hserver hy hp')
  · refine ⟨hturn, ?_⟩
    have hknown := Pool.known_call hcall
    obtain ⟨subject, op, next, htask, hpool⟩ := Pool.call_eq_some.mp hcall
    have hmade : pool.made = s.pool.made ++ [(id, ⟨op, answer op⟩)] := by rw [hpool]
    unfold CallsInTurn
    simp only [hmade, hknown, List.pairwise_append, List.pairwise_singleton, List.mem_singleton]
    refine ⟨hcalls, trivial, ?_⟩
    rintro call - _ rfl p p' hp hp' hkey
    -- an earlier delivery of the key would have finished
    by_contra hlt
    exact h.not_finished (d := ⟨id, p'⟩) htask (hturn ⟨id, p'⟩ ⟨call.1, p⟩
      (h.known_iff_accepted.mp hp') (h.known_iff_accepted.mp hp) hkey.symm (not_le.mp hlt))
  · refine ⟨inTurn_step h.base hturn hserver, ?_⟩
    have hknown := Pool.known_finish hfinish
    unfold CallsInTurn
    simp only [Pool.made_finish hfinish, hknown]
    exact hcalls
  · refine ⟨hturn, ?_⟩
    have hknown := Pool.known_finish hfinish
    unfold CallsInTurn
    simp only [Pool.made_finish hfinish, hknown]
    exact hcalls

/-! ### Silence after a reply -/

/-- Every delivery of the key has finished. -/
def Idle (key : PyStr) (records : List Record) : Prop :=
  ∀ d : Delivery, d.key = key → Accepted records d → Finished records d

/-- A key is idle when no delivery holds it. -/
theorem idle_iff (h : Inv program cfg ttl sweepInterval t₀ s) {key : PyStr} :
    Idle key s.records ↔ key ∉ s.server.app.inFlight := by
  rw [h.base.inFlight_iff]
  constructor
  · rintro hidle ⟨d, hd, hkey⟩
    obtain ⟨haccepted, hfinished⟩ := (h.base.running_iff d).mp hd
    exact hfinished (hidle d hkey haccepted)
  · intro hnone d hkey haccepted
    by_contra hfinished
    exact hnone ⟨d, (h.base.running_iff d).mpr ⟨haccepted, hfinished⟩, hkey⟩

/-- A key that was delivered within the TTL is not accepted. -/
theorem idle_server {server server' : Server} {records : List Record} {record : Record}
    {event : CallbackServer.Event} (hinv : CallbackServer.Inv ttl server records)
    (hstep : CallbackServer.step cfg server event = some (server', record)) {d : Delivery} {t : ℚ}
    (hdelivered : .finished d true t ∈ records) (hidle : Idle d.key records)
    (htime : ∀ id request now, event = .request id request now → now < t + ttl) :
    Idle d.key (records ++ [record]) := by
  intro e hkey he
  have hmono : Finished records e → Finished (records ++ [record]) e :=
    fun ⟨ok, t, hmem⟩ => ⟨ok, t, List.mem_append_left _ hmem⟩
  rcases List.mem_append.mp he with he | he
  · exact hmono (hidle e hkey he)
  · -- a new acceptance is of another key
    exfalso
    obtain rfl := List.mem_singleton.mp he
    rcases CallbackServer.step_cases hstep with
      ⟨id, request, now, answer, -, -, -, hne, -, heq, -⟩ |
      ⟨id, request, now, p, rfl, hid, hnow, -, -, heq, -⟩ | ⟨d', outcome, now, -, -, -, heq, -⟩
    · exact hne e.payload (Record.answered.inj heq).2.symm
    · have haccepted := Except.ok.inj (Record.answered.inj heq).2
      rcases answerComplete_cases server.app p now with ⟨-, hans⟩ | ⟨hcompleted, hfree, hans⟩
      · rw [hans] at haccepted
        cases haccepted
      · rw [hans] at haccepted
        have hp : e.payload = p := Answer.accepted.inj haccepted
        have hduplicate := (hinv.duplicate_iff hnow p.messageKey).mpr
          (.inr ⟨d, t, by rw [← hkey, ← hp], hdelivered, htime _ _ _ rfl⟩)
        rcases hduplicate with h | h
        · exact hcompleted h
        · exact hfree h
    · cases heq

/-- What has been true since the reply of a delivery was sent. -/
structure Silent (d : Delivery) (t : ℚ) (past : List (Nat × Outbound.calls.Event)) (s : System) :
    Prop where
  delivered : .finished d true t ∈ s.records
  idle : Idle d.key s.records
  calls : ∃ later, s.pool.made = past ++ later ∧ ∀ call ∈ later, ∀ payload : CallbackPayload,
    s.pool.Known call.1 ⟨payload, true⟩ → payload.messageKey ≠ d.key

/-- No step breaks the silence within the TTL. -/
theorem silent_step (h : Inv program cfg ttl sweepInterval t₀ s) {d : Delivery} {t : ℚ}
    {past : List (Nat × Outbound.calls.Event)} (hsilent : Silent d t past s)
    (hstep : s.step program cfg e = some s')
    (htime : ∀ id request now, e = .request id request now → now < t + ttl) :
    Silent d t past s' := by
  obtain ⟨hdelivered, hidle, later, hmade, hlater⟩ := hsilent
  rcases step_cases hstep with ⟨id, request, now, server, record, rfl, hserver, rfl⟩ |
    ⟨id, answer, pool, rfl, hcall, rfl⟩ |
    ⟨id, now, pool, payload, r, server, record, rfl, hfinish, hserver, rfl⟩ |
    ⟨id, now, pool, payload, r, rfl, hfinish, rfl⟩
  · refine ⟨List.mem_append_left _ hdelivered,
      idle_server h.base hserver hdelivered hidle fun _ _ _ heq => ?_, later, ?_, ?_⟩
    · cases heq
      exact htime _ _ _ rfl
    · exact made_request.trans hmade
    · intro call hcall payload hknown
      refine hlater call hcall payload (known_of_request h hserver ?_ hknown)
      rw [hmade]
      exact List.mem_append_right _ hcall
  · have hknown := Pool.known_call hcall
    obtain ⟨subject, op, next, htask, hpool⟩ := Pool.call_eq_some.mp hcall
    refine ⟨hdelivered, hidle, later ++ [(id, ⟨op, answer op⟩)], ?_, ?_⟩
    · rw [hpool, ← List.append_assoc, ← hmade]
    · intro call hmem payload hpayload hkey
      rw [hknown] at hpayload
      rcases List.mem_append.mp hmem with hmem | hmem
      · exact hlater call hmem payload hpayload hkey
      · -- the task of the call has not finished
        obtain rfl := List.mem_singleton.mp hmem
        exact h.not_finished (d := ⟨id, payload⟩) htask
          (hidle ⟨id, payload⟩ hkey (h.known_iff_accepted.mp hpayload))
  · have hknown := Pool.known_finish hfinish
    refine ⟨List.mem_append_left _ hdelivered,
      idle_server h.base hserver hdelivered hidle (fun _ _ _ heq => by cases heq), later,
      (Pool.made_finish hfinish).trans hmade, fun call hmem payload' hpayload => ?_⟩
    exact hlater call hmem payload' ((hknown _ _).mp hpayload)
  · have hknown := Pool.known_finish hfinish
    exact ⟨hdelivered, hidle, later, (Pool.made_finish hfinish).trans hmade,
      fun call hmem payload' hpayload => hlater call hmem payload' ((hknown _ _).mp hpayload)⟩

/-- The reply of a delivery has just been sent. -/
theorem silent_start (h : Inv program cfg ttl sweepInterval t₀ s) {d : Delivery} {t : ℚ}
    (hstep : s.step program cfg (.finish d.id t) = some s')
    (hdelivered : .finished d true t ∈ s'.records) : Silent d t s'.pool.made s' := by
  have hinv := inv_step h hstep
  refine ⟨hdelivered, ?_, [], (List.append_nil _).symm, fun call hcall =>
    absurd hcall List.not_mem_nil⟩
  rw [idle_iff hinv]
  rcases step_cases hstep with ⟨id, request, now, server, record, he, -⟩ |
    ⟨id, answer, pool, he, -⟩ |
    ⟨id, now, pool, payload, r, server, record, he, hfinish, hserver, rfl⟩ |
    ⟨id, now, pool, payload, r, he, hfinish, rfl⟩
  · cases he
  · cases he
  · cases he
    obtain ⟨rest, htask, -, -⟩ := Pool.finish_eq_some.mp hfinish
    obtain ⟨-, rfl, hfree⟩ := server_finish hserver
    rcases List.mem_append.mp hdelivered with hmem | hmem
    · exact absurd ⟨_, _, hmem⟩ (h.not_finished htask)
    · have hkey : d.key = payload.messageKey :=
        congrArg Delivery.key (Record.finished.inj (List.mem_singleton.mp hmem)).1
      rw [hkey]
      exact hfree
  · cases he
    obtain ⟨rest, htask, -, -⟩ := Pool.finish_eq_some.mp hfinish
    exact absurd ⟨_, _, hdelivered⟩ (h.not_finished htask)

end

/-! ### Over whole runs -/

section
variable {repr : Json → Except PyError PyStr}
  {listGt : List Json → List Json → Except PyError Bool} {isWord : Nat → Bool}
  {netlocOk : PyStr → Bool} {settings : Settings} {workspace : Nat → PyStr} {cfg : Config}
  {ttl sweepInterval t₀ : ℚ} {events : List BackgroundTasks.Event} {s : System}

/-- However the requests and the deliveries interleave, the endpoint answers as in a run of
`CallbackServer`. Every call belongs to a callback that was accepted or dispatched. The calls for
a callback are calls that `dispatch_callback` makes when it runs alone, and a delivery that the
endpoint has seen finish made a complete run, whose outcome is the one that was recorded. -/
theorem deliveries_alone
    (hrun : System.run repr listGt isWord netlocOk settings workspace cfg
      (.create ttl sweepInterval t₀) events = some s) :
    (∃ es, CallbackServer.run cfg (.create ttl sweepInterval t₀) es
        = some (s.server, s.records)) ∧
      (∀ call ∈ s.pool.made, ∃ job, Scheduled s.records call.1 job) ∧
      (∀ id job, Scheduled s.records id job → ∃ rest,
        (delivery repr listGt isWord netlocOk settings workspace id job).After
          (Pool.ownCalls id s.pool.made) rest) ∧
      ∀ d ok t, .finished d ok t ∈ s.records → ∃ r,
        (delivery repr listGt isWord netlocOk settings workspace d.id ⟨d.payload, true⟩).Runs
          (Pool.ownCalls d.id s.pool.made) r ∧ ok = (outcome r).delivered := by
  have h := inv_run hrun
  refine ⟨h.server, fun call hcall => ?_, fun id job hscheduled => ?_, fun d ok t hmem => ?_⟩
  · obtain ⟨job, hknown⟩ := h.valid.known call hcall
    exact ⟨job, (h.known_iff _ _).mp hknown⟩
  · exact h.after ((h.known_iff id job).mpr hscheduled)
  · obtain ⟨r, hr, hok⟩ := h.finished d ok t hmem
    exact ⟨r, (h.valid.complete _ _ r hr).1, hok⟩

/-- Every recipient is found, every RPC succeeds, and no file can be downloaded. -/
def friendlyAnswers : (op : SignalGateway.Outbound.Op) → op.Answer
  | .client (.resolveRecipient chatId) => (.ok (.str chatId) : Except PyError Json)
  | .client (.estimateWait _) => (.ok 0 : Except PyError ℚ)
  | .client (.rpc (.acquire _)) => (.ok 0 : Except Rpc.SendError ℚ)
  | .client (.rpc .monotonic) => (0 : ℚ)
  | .client (.rpc (.post _ _ _)) =>
      (.ok ⟨200, .ok (.obj [(lit "result", .bool true)])⟩ : Except PyError Rpc.Response)
  | .client (.rpc (.reportRpcDuration _ _)) => ()
  | .client (.rpc (.feedback _ _)) => ()
  | .client (.rpc (.sleep _)) => ()
  | .own .openWorkspace => (.ok () : Except PyError Unit)
  | .own .closeWorkspace => ()
  | .own .closeClient => (.ok () : Except PyError Unit)
  | .own (.mkdir _) => (.ok () : Except PyError Unit)
  | .own (.stream _ _) => (.error .valueError : Except PyError Delivery.Response)
  | .own (.writeBytes _ _) => (.ok () : Except PyError Unit)
  | .own (.send _ _) => (.ok true : Except PyError Bool)
  | .own (.sendVoiceNote _ _) => (.ok true : Except PyError Bool)
  | .own (.sendAttachments _ _) => (.ok true : Except PyError Bool)
  | .own (.sendReaction _ _ _ _) => (.ok true : Except PyError Bool)

/-- The settings of the example. -/
def exampleSettings : Settings where
  signalAccount := lit "+15550000000"
  engineApiKey := lit "secret"
  gatewayPublicUrl := lit "https://gateway"

/-- The program of a task in the example. -/
abbrev exampleDelivery : Nat → Job → Prog Outbound.calls PyError Bool :=
  delivery (fun _ => .ok []) (fun _ _ => .ok false) Markdown.asciiWord (fun _ => true)
    exampleSettings fun _ => lit "/tmp/reply"

/-- A run of the example. -/
abbrev exampleRun (events : List BackgroundTasks.Event) : Option System :=
  System.run (fun _ => .ok []) (fun _ _ => .ok false) Markdown.asciiWord (fun _ => true)
    exampleSettings (fun _ => lit "/tmp/reply") CallbackServer.exampleConfig
    (.create dedupTtlMs 60000 0) events

/-- Two replies with different keys are accepted. The first call of each is answered, and then
the first delivery goes on to its end. -/
def twoReplies : List BackgroundTasks.Event :=
  [.request 0 (CallbackServer.exampleRequest "alice" "17") 1,
    .request 1 (CallbackServer.exampleRequest "bob" "18") 2,
    .answered 0 friendlyAnswers, .answered 1 friendlyAnswers, .answered 0 friendlyAnswers,
    .answered 0 friendlyAnswers, .answered 0 friendlyAnswers]

/-- Two replies at the same time are two deliveries alone. -/
theorem deliveries_alone_twoReplies : ∃ s, exampleRun (twoReplies ++ [.finish 0 3]) = some s ∧
    (∃ es, CallbackServer.run CallbackServer.exampleConfig (.create dedupTtlMs 60000 0) es
        = some (s.server, s.records)) ∧
      (∀ call ∈ s.pool.made, ∃ job, Scheduled s.records call.1 job) ∧
      (∀ id job, Scheduled s.records id job → ∃ rest,
        (exampleDelivery id job).After (Pool.ownCalls id s.pool.made) rest) ∧
      ∀ d ok t, .finished d ok t ∈ s.records → ∃ r,
        (exampleDelivery d.id ⟨d.payload, true⟩).Runs (Pool.ownCalls d.id s.pool.made) r ∧
          ok = (outcome r).delivered := by
  obtain ⟨s, hrun⟩ := Option.isSome_iff_exists.mp
    (show (exampleRun (twoReplies ++ [.finish 0 3])).isSome = true by decide +kernel)
  exact ⟨s, hrun, deliveries_alone hrun⟩

/-- However the deliveries interleave, each POST carries the account of the gateway, goes to the
recipient of the callback that it is made for, and has styles that are valid ranges of its
message. The recipient of a direct chat is one that was looked up for this callback and chat. -/
theorem posts_of_callback
    (hrun : System.run repr listGt isWord netlocOk settings workspace cfg
      (.create ttl sweepInterval t₀) events = some s) :
    ∀ call ∈ s.pool.made, ∃ job, Scheduled s.records call.1 job ∧
      Outbound.DeliveryOp settings (Dispatch.recipient job.payload)
        (Outbound.Resolved (Pool.ownCalls call.1 s.pool.made) (Dispatch.recipient job.payload))
        call.2.1 := by
  intro call hcall
  have h := inv_run hrun
  obtain ⟨job, hknown⟩ := h.valid.known call hcall
  obtain ⟨rest, hrest⟩ := h.after hknown
  exact ⟨job, (h.known_iff _ _).mp hknown,
    Outbound.deliver_posts hrest call.2 (Pool.mem_ownCalls.mpr hcall)⟩

/-- Each of two replies posts for its own recipient. -/
theorem posts_of_callback_twoReplies : ∃ s, exampleRun twoReplies = some s ∧
    ∀ call ∈ s.pool.made, ∃ job, Scheduled s.records call.1 job ∧
      Outbound.DeliveryOp exampleSettings (Dispatch.recipient job.payload)
        (Outbound.Resolved (Pool.ownCalls call.1 s.pool.made) (Dispatch.recipient job.payload))
        call.2.1 := by
  obtain ⟨s, hrun⟩ := Option.isSome_iff_exists.mp
    (show (exampleRun twoReplies).isSome = true by decide +kernel)
  exact ⟨s, hrun, posts_of_callback hrun⟩

/-- However the deliveries interleave, a reply without media counts as delivered, so that its key
is marked, exactly if the converted chunks of its text were posted, each once and in order, and
the daemon has taken them all. -/
theorem delivered_in_full (hchunk : 0 < settings.chunkSize)
    (hrun : System.run repr listGt isWord netlocOk settings workspace cfg
      (.create ttl sweepInterval t₀) events = some s) {d : Delivery} {ok : Bool} {t : ℚ}
    (hmem : .finished d ok t ∈ s.records) (htext : Outbound.TextOnly d.payload) :
    ok = true ↔ ∃ plains, List.Forall₂ (Outbound.Converted isWord)
        (Delivery.replyChunks settings d.payload) plains ∧
      Outbound.texts repr listGt (Pool.ownCalls d.id s.pool.made)
        = plains.map fun plain => (.str plain, true) := by
  have h := inv_run hrun
  obtain ⟨r, hr, rfl⟩ := h.finished d ok t hmem
  -- The task has run to its end, so its calls are a whole run of the delivery.
  rw [← Outbound.text_on_the_wire hchunk htext (h.valid.complete _ _ r hr).1]
  cases r with
  | ok delivered => exact Except.ok.injEq delivered true ▸ Iff.rfl
  | error e => exact iff_of_false (fun h => by cases h) fun h => by cases h

/-- The record of a delivered reply. -/
def isDelivered (d : Delivery) (t : ℚ) : Record → Bool
  | .finished d' ok t' => decide (d' = d ∧ ok = true ∧ t' = t)
  | .answered _ _ => false

/-- The record of a delivery that has succeeded. -/
theorem eq_finished_of_isDelivered {d : Delivery} {t : ℚ} {record : Record}
    (h : isDelivered d t record = true) : record = .finished d true t := by
  cases record with
  | finished d' ok t' =>
    obtain ⟨rfl, rfl, rfl⟩ := of_decide_eq_true h
    rfl
  | answered id answer => cases h

/-- The text of one of two replies arrives in full. -/
theorem delivered_in_full_twoReplies : ∃ s, exampleRun (twoReplies ++ [.finish 0 3]) = some s ∧
    (true = true ↔ ∃ plains, List.Forall₂ (Outbound.Converted Markdown.asciiWord)
        (Delivery.replyChunks exampleSettings (CallbackServer.examplePayload "alice" "17")) plains ∧
      Outbound.texts (fun _ => .ok []) (fun _ _ => .ok false) (Pool.ownCalls 0 s.pool.made)
        = plains.map fun plain => (.str plain, true)) := by
  obtain ⟨s, hrun, hrecord⟩ := (Option.any_eq_true _ _).mp
    (show (exampleRun (twoReplies ++ [.finish 0 3])).any (fun s => s.records.any
      (isDelivered ⟨0, CallbackServer.examplePayload "alice" "17"⟩ 3)) = true by decide +kernel)
  obtain ⟨record, hmem, hdelivered⟩ := List.any_eq_true.mp hrecord
  rw [eq_finished_of_isDelivered hdelivered] at hmem
  exact ⟨s, hrun, delivered_in_full (by decide) hrun hmem (.inr (by decide))⟩

/-- The calls of two deliveries of one key never interleave. Those of the reply that was accepted
first come first. -/
theorem same_key_in_turn
    (hrun : System.run repr listGt isWord netlocOk settings workspace cfg
      (.create ttl sweepInterval t₀) events = some s) :
    s.pool.made.Pairwise fun call call' => ∀ d e : Delivery, Accepted s.records d →
      Accepted s.records e → d.id = call.1 → e.id = call'.1 → d.key = e.key → d.id ≤ e.id := by
  have h : Inv (delivery repr listGt isWord netlocOk settings workspace) cfg ttl sweepInterval
      t₀ s ∧ InTurn s.records ∧ CallsInTurn s.pool :=
    Machine.run_induction (motive := fun _ s => Inv
        (delivery repr listGt isWord netlocOk settings workspace) cfg ttl sweepInterval t₀ s ∧
        InTurn s.records ∧ CallsInTurn s.pool)
      ⟨inv_create, fun d e hd => absurd hd List.not_mem_nil, List.Pairwise.nil⟩
      (fun _ _ _ _ h hstep => ⟨inv_step h.1 hstep, turns_step h.1 h.2.1 h.2.2 hstep⟩) hrun
  -- The calls are ordered by the jobs of their tasks, and a job knows its key.
  refine h.2.2.imp fun {call call'} hle d e hd he hcall hcall' hkey => ?_
  have hd' : s.pool.Known call.1 ⟨d.payload, true⟩ := by
    rw [← hcall]
    exact h.1.known_iff_accepted.mpr hd
  have he' : s.pool.Known call'.1 ⟨e.payload, true⟩ := by
    rw [← hcall']
    exact h.1.known_iff_accepted.mpr he
  rw [hcall, hcall']
  exact hle _ _ hd' he' hkey

/-- No recipient is found. -/
def strangerAnswers : (op : SignalGateway.Outbound.Op) → op.Answer
  | .client (.resolveRecipient _) => (.error .valueError : Except PyError Json)
  | .client (.estimateWait n) => friendlyAnswers (.client (.estimateWait n))
  | .client (.rpc op) => friendlyAnswers (.client (.rpc op))
  | .own op => friendlyAnswers (.own op)

/-- The delivery of a reply fails, and the reply is sent again. -/
def repeatedReply : List BackgroundTasks.Event :=
  [.request 0 (CallbackServer.exampleRequest "alice" "17") 1, .answered 0 strangerAnswers,
    .finish 0 2, .request 1 (CallbackServer.exampleRequest "alice" "17") 3,
    .answered 1 friendlyAnswers]

/-- A reply with the key of another one waits for its turn. -/
theorem same_key_in_turn_repeatedReply : ∃ s, exampleRun repeatedReply = some s ∧
    s.pool.made.Pairwise fun call call' => ∀ d e : Delivery, Accepted s.records d →
      Accepted s.records e → d.id = call.1 → e.id = call'.1 → d.key = e.key → d.id ≤ e.id := by
  obtain ⟨s, hrun⟩ := Option.isSome_iff_exists.mp
    (show (exampleRun repeatedReply).isSome = true by decide +kernel)
  exact ⟨s, hrun, same_key_in_turn hrun⟩

/-- From the moment at which a reply has been delivered, nothing is sent for its key until the TTL
is over, whatever arrives: a call made since is not one of a reply with this key. -/
theorem silent_after_delivery {d : Delivery} {t : ℚ} {s₁ s' : System}
    {after : List BackgroundTasks.Event}
    (hrun : System.run repr listGt isWord netlocOk settings workspace cfg
      (.create ttl sweepInterval t₀) events = some s)
    (hfinish : System.step (delivery repr listGt isWord netlocOk settings workspace) cfg s
      (.finish d.id t) = some s₁) (hdelivered : .finished d true t ∈ s₁.records)
    (hafter : System.run repr listGt isWord netlocOk settings workspace cfg s₁ after = some s')
    (htime : ∀ id request now, BackgroundTasks.Event.request id request now ∈ after →
      now < t + ttl) :
    ∃ later, s'.pool.made = s₁.pool.made ++ later ∧
      ∀ call ∈ later, ∀ e, Accepted s'.records e → e.id = call.1 → e.key ≠ d.key := by
  have h := inv_run hrun
  -- The invariant holds from the end of the delivery on.
  have hsince : Inv (delivery repr listGt isWord netlocOk settings workspace) cfg ttl
      sweepInterval t₀ s' ∧ ((∀ id request now, BackgroundTasks.Event.request id request now ∈
      after → now < t + ttl) → Silent d t s₁.pool.made s') :=
    Machine.run_induction (motive := fun es s => Inv
        (delivery repr listGt isWord netlocOk settings workspace) cfg ttl sweepInterval t₀ s ∧
        ((∀ id request now, BackgroundTasks.Event.request id request now ∈ es → now < t + ttl) →
          Silent d t s₁.pool.made s))
      ⟨inv_step h hfinish, fun _ => silent_start h hfinish hdelivered⟩
      (fun es _ e _ h hstep => ⟨inv_step h.1 hstep, fun htime =>
        silent_step h.1 (h.2 fun id request now hmem =>
            htime id request now (List.mem_append_left _ hmem)) hstep
          fun id request now he => htime id request now (by simp [he])⟩) hafter
  obtain ⟨-, -, later, hmade, hlater⟩ := hsince.2 htime
  refine ⟨later, hmade, fun call hcall e he hid => ?_⟩
  refine hlater call hcall e.payload ?_
  rw [← hid]
  exact hsince.1.known_iff_accepted.mpr he

/-- A delivered reply is sent again, and the other delivery goes on. -/
def lateTraffic : List BackgroundTasks.Event :=
  [.request 2 (CallbackServer.exampleRequest "alice" "17") 4, .answered 1 friendlyAnswers]

/-- A reply that was delivered is not posted again. -/
theorem silent_after_delivery_lateTraffic : ∃ s s₁ s', exampleRun twoReplies = some s ∧
    System.step exampleDelivery CallbackServer.exampleConfig s (.finish 0 3) = some s₁ ∧
    Machine.run (System.step exampleDelivery CallbackServer.exampleConfig) s₁ lateTraffic
      = some s' ∧
    ∃ later, s'.pool.made = s₁.pool.made ++ later ∧
      ∀ call ∈ later, ∀ e, Accepted s'.records e → e.id = call.1 → e.key ≠ lit "17" := by
  have hall : ((exampleRun twoReplies).any fun s =>
      (System.step exampleDelivery CallbackServer.exampleConfig s (.finish 0 3)).any fun s₁ =>
        s₁.records.any (isDelivered ⟨0, CallbackServer.examplePayload "alice" "17"⟩ 3) &&
          (Machine.run (System.step exampleDelivery CallbackServer.exampleConfig) s₁
            lateTraffic).isSome) = true := by decide +kernel
  obtain ⟨s, hrun, hall⟩ := (Option.any_eq_true _ _).mp hall
  obtain ⟨s₁, hfinish, hall⟩ := (Option.any_eq_true _ _).mp hall
  obtain ⟨hrecord, hafter⟩ := Bool.and_eq_true_iff.mp hall
  obtain ⟨record, hmem, hdelivered⟩ := List.any_eq_true.mp hrecord
  obtain ⟨s', hafter⟩ := Option.isSome_iff_exists.mp hafter
  rw [eq_finished_of_isDelivered hdelivered] at hmem
  refine ⟨s, s₁, s', hrun, hfinish, hafter,
    silent_after_delivery (d := ⟨0, CallbackServer.examplePayload "alice" "17"⟩) hrun hfinish
      hmem hafter ?_⟩
  intro id request now hmem
  rcases List.mem_cons.mp hmem with heq | hmem
  · cases heq
    norm_num [dedupTtlMs]
  · cases List.mem_singleton.mp hmem

end

end SignalGateway.Proofs.BackgroundTasks
