import SignalGateway.App
import SignalGateway.Proofs.BackgroundTasks
import SignalGateway.Proofs.Inbound
import SignalGateway.Proofs.Recipients

/-!
# `SignalGateway.Proofs.App`: what the two halves share

`Stepped` says what one event can do. `Queued` ties the callers that wait to the state of the
lock, and `Adds` says what an event adds to the calls of the two halves.

`Inv` follows a run: each half is in a run of its own, the caches of the client hold pairs that
were seen together, and every lookup that has ended was routed well. `inv_step` is the step lemma
and `inv_run` the run lemma. `client_run` says the same of the client as a whole.

The theorems:

* `step_cases`: the inversion lemma. An event is a step of the listener, a step of the tasks, or
  one of the client on behalf of a caller.
* `Stepped.halves`: seen from one half, an event is at most one step. So every law about the
  inbound side or about the tasks holds in the whole process.
* `Stepped.adds`: an event adds at most one lookup to the calls, and that lookup was routed well.
* `Queued.step`: at most one caller lists the contacts, the callers that wait are the ones the
  client has, and each of them is at a lookup in its own program.
* `Stepped.history`, `Sourced`: where the events of the client come from. A pair that is
  remembered stands in a message, and a list of contacts was answered.

`listenerAnswers` and `taskAnswers` are the environments in which a lookup ends. They turn the
end of a lookup into an ordinary step of the half that asked.
-/

set_option autoImplicit false

namespace SignalGateway.Proofs.App

open SignalGateway.Envelope SignalGateway.SignalClient SignalGateway.App
open SignalGateway.Proofs.Recipients (Consistent WellRouted)
open SignalGateway.Proofs.Connection (linesOf lineOf)

/-! ### What one event does -/

section
variable {setup : Setup} {s s' : System}

/-- A lookup ends, and its caller goes on. -/
inductive Replied (s : System) (recipient : Except PyError Json) : Caller → System → Prop where
  | listener {chatId : PyStr} {next : Except PyError Json → Prog Inbound.calls PyError Unit}
      (h : s.listener.consumer = .handling (.call (.client (.resolveRecipient chatId)) next)) :
      Replied s recipient .listener
        (s.answerListener ⟨.client (.resolveRecipient chatId), recipient⟩ (next recipient))
  | task {id : Nat} {job : BackgroundTasks.Job} {chatId : PyStr}
      {next : Except PyError Json → Prog Outbound.calls PyError Bool}
      (h : s.tasks.pool.tasks id
        = some ⟨job, .call (.client (.resolveRecipient chatId)) next⟩) :
      Replied s recipient (.task id)
        (s.answerTask id job ⟨.client (.resolveRecipient chatId), recipient⟩ (next recipient))

/-- What a reply to a caller does. -/
theorem replied_of_reply {recipient : Except PyError Json} {caller : Caller}
    (h : s.reply recipient caller = some s') : Replied s recipient caller s' := by
  cases caller with
  | listener =>
    simp only [System.reply] at h
    split at h
    · next chatId next hc =>
      cases h
      exact .listener hc
    · cases h
  | task id =>
    simp only [System.reply] at h
    split at h
    · next job chatId next htask =>
      cases h
      exact .task htask
    · cases h

/-- What an event can do. -/
inductive Stepped (setup : Setup) (s : System) : App.Event → System → Prop where
  | listener {event : Connection.Timed Inbound.calls} {listener : Connection.System Inbound.calls}
      (hown : isAnswer event.1 = true → s.remembers = none ∧ s.asks .listener = none)
      (h : s.listener.step setup.handleLine event = some listener) :
      Stepped setup s (.listener event) { s with listener }
  | tasks {event : BackgroundTasks.Event} {tasks : BackgroundTasks.System}
      (hown : ∀ id ∈ answeredTask event, s.asks (.task id) = none)
      (h : s.tasks.step setup.delivery setup.config event = some tasks) :
      Stepped setup s (.tasks event) { s with tasks }
  | remember {number serviceId : Json} {next : Unit → Prog Inbound.calls PyError Unit}
      {client : SignalClient.Client} {ret : Option Return}
      (hc : s.listener.consumer = .handling (.call (.cacheIdentifiers number serviceId) next))
      (h : s.client.step (.remember number serviceId) = some (client, ret)) :
      Stepped setup s .remember ((s.touch (.remember number serviceId) client).answerListener
        ⟨.cacheIdentifiers number serviceId, ()⟩ (next ()))
  /-- A lookup ends at once. -/
  | found {caller : Caller} {chatId : PyStr} {client : SignalClient.Client} {ret : Return}
      {s' : System} (hasks : s.asks caller = some chatId)
      (hnew : caller ∉ s.waiting.map Prod.fst ∧ s.listing ≠ some caller)
      (h : s.client.step (.resolve chatId) = some (client, some ret))
      (hreply : Replied (s.touch (.resolve chatId) client) ret.result caller s') :
      Stepped setup s (.resolve caller) s'
  | queued {caller : Caller} {chatId : PyStr} {client : SignalClient.Client}
      (hasks : s.asks caller = some chatId)
      (hnew : caller ∉ s.waiting.map Prod.fst ∧ s.listing ≠ some caller)
      (h : s.client.step (.resolve chatId) = some (client, none)) :
      Stepped setup s (.resolve caller)
        { s.touch (.resolve chatId) client with waiting := s.waiting ++ [(caller, chatId)] }
  /-- A waiting lookup ends when it gets the lock. -/
  | late {caller : Caller} {chatId : PyStr} {client : SignalClient.Client} {ret : Return}
      {s' : System} (hmem : (caller, chatId) ∈ s.waiting)
      (h : s.client.step (.enter chatId) = some (client, some ret))
      (hreply : Replied { s.touch (.enter chatId) client with
        waiting := s.waiting.erase (caller, chatId) } ret.result caller s') :
      Stepped setup s (.enter caller chatId) s'
  | asked {caller : Caller} {chatId : PyStr} {client : SignalClient.Client}
      (hmem : (caller, chatId) ∈ s.waiting)
      (h : s.client.step (.enter chatId) = some (client, none)) :
      Stepped setup s (.enter caller chatId) { s.touch (.enter chatId) client with
        waiting := s.waiting.erase (caller, chatId), listing := some caller }
  | listed {caller : Caller} {result : Json} {client : SignalClient.Client} {ret : Return}
      {s' : System} (hlisting : s.listing = some caller)
      (h : s.client.step (.contacts result) = some (client, some ret))
      (hreply : Replied { s.touch (.contacts result) client with listing := none }
        ret.result caller s') :
      Stepped setup s (.contacts result) s'

/-- A step does what its event names, and nothing else. -/
theorem step_cases {event : App.Event} (h : s.step setup event = some s') :
    Stepped setup s event s' := by
  cases event with
  | listener event =>
    simp only [System.step] at h
    split at h
    · cases h
    · next hown =>
      obtain ⟨listener, hstep, heq⟩ := Option.bind_eq_some_iff.mp h
      cases heq
      refine .listener (fun hanswer => ?_) hstep
      rw [hanswer, Bool.true_and, Bool.or_eq_true, not_or] at hown
      exact ⟨by simpa using hown.1, by simpa using hown.2⟩
  | tasks event =>
    simp only [System.step] at h
    split at h
    · cases h
    · next hown =>
      obtain ⟨tasks, hstep, heq⟩ := Option.bind_eq_some_iff.mp h
      cases heq
      refine .tasks (fun id hid => ?_) hstep
      rw [Option.mem_def.mp hid] at hown
      simpa using hown
  | remember =>
    simp only [System.step] at h
    split at h
    · next number serviceId next hc =>
      obtain ⟨⟨client, ret⟩, hstep, heq⟩ := Option.bind_eq_some_iff.mp h
      cases heq
      exact .remember hc hstep
    · cases h
  | resolve caller =>
    obtain ⟨chatId, hasks, h⟩ := Option.bind_eq_some_iff.mp h
    split at h
    · cases h
    · next hnew =>
      obtain ⟨⟨client, ret⟩, hstep, h⟩ := Option.bind_eq_some_iff.mp h
      cases ret with
      | some ret => exact .found hasks (not_or.mp hnew) hstep (replied_of_reply h)
      | none =>
        cases h
        exact .queued hasks (not_or.mp hnew) hstep
  | enter caller chatId =>
    simp only [System.step] at h
    split at h
    · next hmem =>
      obtain ⟨⟨client, ret⟩, hstep, h⟩ := Option.bind_eq_some_iff.mp h
      cases ret with
      | some ret => exact .late hmem hstep (replied_of_reply h)
      | none =>
        cases h
        exact .asked hmem hstep
    · cases h
  | contacts result =>
    obtain ⟨caller, hlisting, h⟩ := Option.bind_eq_some_iff.mp h
    obtain ⟨⟨client, ret⟩, hstep, h⟩ := Option.bind_eq_some_iff.mp h
    cases ret with
    | some ret => exact .listed hlisting hstep (replied_of_reply h)
    | none => cases h

/-! ### What a caller looks up -/

/-- The listener asks when the handler of its message is at a lookup. -/
theorem asks_listener_iff {chatId : PyStr} : s.asks .listener = some chatId ↔
    ∃ next, s.listener.consumer = .handling (.call (.client (.resolveRecipient chatId)) next) := by
  simp only [System.asks]
  constructor
  · intro h
    split at h
    · next chatId' next hc =>
      cases h
      exact ⟨next, hc⟩
    · cases h
  · rintro ⟨next, hc⟩
    rw [hc]

/-- A task asks when its delivery is at a lookup. -/
theorem asks_task_iff {id : Nat} {chatId : PyStr} : s.asks (.task id) = some chatId ↔
    ∃ job next, s.tasks.pool.tasks id
      = some ⟨job, .call (.client (.resolveRecipient chatId)) next⟩ := by
  simp only [System.asks]
  constructor
  · intro h
    split at h
    · next job chatId' next htask =>
      cases h
      exact ⟨job, next, htask⟩
    · cases h
  · rintro ⟨job, next, htask⟩
    rw [htask]

section
variable {recipient : Except PyError Json} {caller : Caller}

/-- The caller that goes on has looked something up. -/
theorem Replied.asks (h : Replied s recipient caller s') :
    ∃ chatId, s.asks caller = some chatId := by
  cases h with
  | listener h => exact ⟨_, asks_listener_iff.mpr ⟨_, h⟩⟩
  | task h => exact ⟨_, asks_task_iff.mpr ⟨_, _, h⟩⟩

/-- The other callers do not notice. -/
theorem Replied.asks_eq (h : Replied s recipient caller s') {other : Caller}
    (hne : other ≠ caller) : s'.asks other = s.asks other := by
  cases h with
  | listener h =>
    cases other with
    | listener => exact absurd rfl hne
    | task id => rfl
  | @task id job chatId next h =>
    cases other with
    | listener => rfl
    | task id' =>
      have hid : id' ≠ id := fun heq => hne (heq ▸ rfl)
      simp only [System.asks, System.answerTask, Function.update_of_ne hid]

/-- A reply leaves the client alone. -/
theorem Replied.client_eq (h : Replied s recipient caller s') : s'.client = s.client := by
  cases h <;> rfl

/-- A reply leaves the callers that wait for the lock. -/
theorem Replied.waiting_eq (h : Replied s recipient caller s') : s'.waiting = s.waiting := by
  cases h <;> rfl

/-- A reply leaves the holder of the lock. -/
theorem Replied.listing_eq (h : Replied s recipient caller s') : s'.listing = s.listing := by
  cases h <;> rfl

/-- A reply is no event of the client. -/
theorem Replied.history_eq (h : Replied s recipient caller s') : s'.history = s.history := by
  cases h <;> rfl

end

/-- A step of the listener that answers no lookup leaves its lookup alone. -/
theorem asks_of_listener_step {event : Connection.Timed Inbound.calls}
    {listener : Connection.System Inbound.calls}
    (hown : isAnswer event.1 = true → s.asks .listener = none)
    (hstep : s.listener.step setup.handleLine event = some listener) {chatId : PyStr}
    (hasks : s.asks .listener = some chatId) :
    ({ s with listener } : System).asks .listener = some chatId := by
  obtain ⟨next, hc⟩ := asks_listener_iff.mp hasks
  refine asks_listener_iff.mpr ⟨next, ?_⟩
  obtain ⟨event, now⟩ := event
  cases event with
  | monitor e =>
    show listener.consumer = _
    rw [(Connection.step_monitor hstep).2.sameConsumer.consumer]
    exact hc
  | consumer e =>
    cases (Connection.step_consumer hstep).2 with
    | answered => rw [hown rfl] at hasks; cases hasks
    | connectFailed h | connected h | refused h | line h | streamEnded h | closed h | woken h
    | timedOut h => cases hc.symm.trans h

/-- A step of the server or of a task leaves the lookups of the tasks alone. -/
theorem asks_of_tasks_step {ttl sweepInterval nowMs : ℚ} {event : BackgroundTasks.Event}
    {tasks : BackgroundTasks.System}
    (hinv : BackgroundTasks.Inv setup.delivery setup.config ttl sweepInterval nowMs s.tasks)
    (hown : ∀ id ∈ answeredTask event, s.asks (.task id) = none)
    (hstep : s.tasks.step setup.delivery setup.config event = some tasks) {id : Nat}
    {chatId : PyStr} (hasks : s.asks (.task id) = some chatId) :
    ({ s with tasks } : System).asks (.task id) = some chatId := by
  obtain ⟨job, next, htask⟩ := asks_task_iff.mp hasks
  refine asks_task_iff.mpr ⟨job, next, ?_⟩
  show tasks.pool.tasks id = _
  -- A task that ends does not look anything up.
  have hfinish : ∀ {id' pool subject r}, s.tasks.pool.finish id' = some (pool, subject, r) →
      pool.tasks id = s.tasks.pool.tasks id := by
    intro id' pool subject r hfinish
    obtain ⟨rest, htask', hr, rfl⟩ := Pool.finish_eq_some.mp hfinish
    refine Function.update_of_ne ?_ _ _
    rintro rfl
    cases htask.symm.trans htask'
    cases hr
  rcases BackgroundTasks.step_cases hstep with
    ⟨id', request, now, server, record, rfl, hserver, rfl⟩ | ⟨id', answer, pool, rfl, hcall, rfl⟩ |
    ⟨id', now, pool, payload, r, server, record, rfl, hend, hserver, rfl⟩ |
    ⟨id', now, pool, payload, r, rfl, hend, rfl⟩
  · obtain ⟨hid, -⟩ := BackgroundTasks.server_request hserver
    have hlt := hinv.valid.lt id job (.inl ⟨_, htask⟩)
    rw [← htask]
    exact BackgroundTasks.tasks_schedule hserver (by omega)
  · obtain ⟨subject, op, next', htask', rfl⟩ := Pool.call_eq_some.mp hcall
    refine (Function.update_of_ne ?_ _ _).trans htask
    rintro rfl
    rw [hown id rfl] at hasks
    cases hasks
  · exact (hfinish hend).trans htask
  · exact (hfinish hend).trans htask

/-! ### The lock -/

/-- The callers that wait, and the one that holds the lock, against the state of the client. -/
structure Queued (s : System) : Prop where
  waiting : ∀ entry ∈ s.waiting, s.asks entry.1 = some entry.2
  nodup : (s.waiting.map Prod.fst).Nodup
  perm : s.client.waiting.Perm (s.waiting.map Prod.snd)
  holder : ∀ caller, s.listing = some caller → caller ∉ s.waiting.map Prod.fst ∧
    ∃ chatId, s.client.listing = some chatId ∧ s.asks caller = some chatId
  free : s.listing = none → s.client.listing = none

/-- An event that does not touch the lock, and leaves the lookups of those who wait alone. -/
theorem Queued.same (h : Queued s) (hwaiting : s'.waiting = s.waiting)
    (hlisting : s'.listing = s.listing) (hclient : s'.client.waiting = s.client.waiting)
    (hholder : s'.client.listing = s.client.listing)
    (hasks : ∀ caller chatId, caller ∈ s.waiting.map Prod.fst ∨ s.listing = some caller →
      s.asks caller = some chatId → s'.asks caller = some chatId) : Queued s' := by
  constructor
  case waiting =>
    -- Whoever waits still asks for the same chat.
    intro entry hentry
    rw [hwaiting] at hentry
    exact hasks _ _ (.inl (List.mem_map_of_mem hentry)) (h.waiting entry hentry)
  case nodup =>
    rw [hwaiting]
    exact h.nodup
  case perm =>
    rw [hclient, hwaiting]
    exact h.perm
  case holder =>
    intro caller hcaller
    rw [hlisting] at hcaller
    obtain ⟨hnot, chatId, hlisted, hasked⟩ := h.holder caller hcaller
    rw [hwaiting, hholder]
    exact ⟨hnot, chatId, hlisted, hasks _ _ (.inr hcaller) hasked⟩
  case free =>
    intro hfree
    rw [hholder]
    exact h.free (hlisting.symm.trans hfree)

/-- A lookup that ends was neither waiting nor holding the lock any more. -/
theorem Queued.reply (h : Queued s) {recipient : Except PyError Json} {caller : Caller}
    (hreply : Replied s recipient caller s') (hwaiting : caller ∉ s.waiting.map Prod.fst)
    (hlisting : s.listing ≠ some caller) : Queued s' := by
  refine h.same hreply.waiting_eq hreply.listing_eq (by rw [hreply.client_eq])
    (by rw [hreply.client_eq]) fun other chatId hother hasks => ?_
  rw [hreply.asks_eq ?_]
  · exact hasks
  · rintro rfl
    exact hother.elim hwaiting hlisting

/-- A caller takes its place behind the others. -/
theorem Queued.queue (h : Queued s) {caller : Caller} {chatId : PyStr}
    {event : SignalClient.Event} {client : SignalClient.Client}
    (hasks : s.asks caller = some chatId) (hnew : caller ∉ s.waiting.map Prod.fst)
    (hlisting : s.listing ≠ some caller) (hclient : client.waiting = s.client.waiting ++ [chatId])
    (hholder : client.listing = s.client.listing) :
    Queued { s.touch event client with waiting := s.waiting ++ [(caller, chatId)] } := by
  constructor
  case waiting =>
    intro entry hentry
    rcases List.mem_append.mp hentry with hentry | hentry
    · exact h.waiting entry hentry
    · cases List.mem_singleton.mp hentry
      exact hasks
  case nodup =>
    -- A caller that is not in the queue joins it once.
    simp only [List.map_append, List.map_cons, List.map_nil]
    exact List.nodup_append.mpr ⟨h.nodup, List.nodup_singleton _, fun a ha b hb heq =>
      hnew (List.mem_singleton.mp hb ▸ heq ▸ ha)⟩
  case perm =>
    show client.waiting.Perm _
    simp only [hclient, List.map_append, List.map_cons, List.map_nil]
    exact h.perm.append_right _
  case holder =>
    intro other hother
    obtain ⟨hnot, hlisted⟩ := h.holder other hother
    refine ⟨?_, ?_⟩
    · simp only [List.map_append, List.map_cons, List.map_nil, List.mem_append,
        List.mem_singleton, not_or]
      exact ⟨hnot, fun heq => hlisting (heq ▸ hother)⟩
    · show ∃ chatId, client.listing = _ ∧ _
      rw [hholder]
      exact hlisted
  case free => exact fun hfree => hholder.trans (h.free hfree)

/-- A caller leaves its place. -/
theorem Queued.leave (h : Queued s) {caller : Caller} {chatId : PyStr}
    (hmem : (caller, chatId) ∈ s.waiting) {event : SignalClient.Event}
    {client : SignalClient.Client} (hclient : client.waiting = s.client.waiting.erase chatId)
    (hholder : client.listing = s.client.listing) :
    caller ∉ (s.waiting.erase (caller, chatId)).map Prod.fst ∧
      Queued { s.touch event client with waiting := s.waiting.erase (caller, chatId) } := by
  have hperm := List.perm_cons_erase hmem
  have hnodup := (hperm.map Prod.fst).nodup_iff.mp h.nodup
  rw [List.map_cons, List.nodup_cons] at hnodup
  refine ⟨hnodup.1, ?_⟩
  constructor
  case waiting => exact fun entry hentry => h.waiting entry (List.mem_of_mem_erase hentry)
  case nodup => exact hnodup.2
  case perm =>
    -- The two queues lose the same chat id.
    have hboth := (h.perm.trans (hperm.map Prod.snd)).erase chatId
    rw [List.map_cons, List.erase_cons_head] at hboth
    show client.waiting.Perm _
    rw [hclient]
    exact hboth
  case holder =>
    intro other hother
    obtain ⟨hnot, hlisted⟩ := h.holder other hother
    refine ⟨fun hin => hnot ?_, ?_⟩
    · obtain ⟨entry, hentry, rfl⟩ := List.mem_map.mp hin
      exact List.mem_map_of_mem (List.mem_of_mem_erase hentry)
    · show ∃ chatId, client.listing = _ ∧ _
      rw [hholder]
      exact hlisted
  case free => exact fun hfree => hholder.trans (h.free hfree)

/-! ### The invariant -/

/-- The lines that have arrived. -/
def streamLines (events : List App.Event) : List Listener.Line :=
  events.filterMap fun event =>
    match event with
    | .listener event => lineOf event.1
    | _ => none

/-- The listener answers a lookup, and every other call. -/
def listenerAnswers (recipient : Except PyError Json) : (op : Inbound.Op) → op.Answer
  | .client (.resolveRecipient _) => recipient
  | op => Inbound.calmAnswers op

/-- The same for the calls of a task. -/
def taskAnswers (recipient : Except PyError Json) : (op : Outbound.Op) → op.Answer
  | .client (.resolveRecipient _) => recipient
  | op => BackgroundTasks.friendlyAnswers op

/-- The consumer goes on with the answer to its call. -/
theorem listener_step_of_call (setup : Setup) {op : Inbound.Op}
    {next : op.Answer → Prog Inbound.calls PyError Unit}
    (hc : s.listener.consumer = .handling (.call op next)) (answer : (op : Inbound.Op) → op.Answer) :
    s.listener.step setup.handleLine (.consumer (.answered answer), s.listener.clock)
      = some (s.answerListener ⟨op, answer op⟩ (next (answer op))).listener := by
  rw [Connection.System.step, if_neg (lt_irrefl _)]
  show Connection.System.consume _ (Connection.clocked s.listener s.listener.clock) _ = _
  rw [Connection.System.consume, show (Connection.clocked s.listener s.listener.clock).consumer = _
    from hc]
  rfl

/-- The task goes on with the answer to its call. -/
theorem tasks_step_of_call (setup : Setup) {id : Nat} {job : BackgroundTasks.Job}
    {op : SignalGateway.Outbound.Op}
    {next : op.Answer → Prog Outbound.calls PyError Bool}
    (htask : s.tasks.pool.tasks id = some ⟨job, .call op next⟩)
    (answer : (op : SignalGateway.Outbound.Op) → op.Answer) :
    s.tasks.step setup.delivery setup.config (.answered id answer)
      = some (s.answerTask id job ⟨op, answer op⟩ (next (answer op))).tasks := by
  have hcall : s.tasks.pool.call id answer
      = some (s.answerTask id job ⟨op, answer op⟩ (next (answer op))).tasks.pool :=
    Pool.call_eq_some.mpr ⟨job, op, next, htask, rfl⟩
  rw [BackgroundTasks.System.step, hcall]
  rfl

/-- The end of a lookup is a step of the half that it belongs to. -/
theorem Replied.halves {recipient : Except PyError Json} {caller : Caller}
    (h : Replied s recipient caller s') :
    (∃ events, s.listener.run setup.handleLine events = some s'.listener ∧ linesOf events = []) ∧
      ∃ events, Machine.run (BackgroundTasks.System.step setup.delivery setup.config) s.tasks events
        = some s'.tasks := by
  cases h with
  | listener hc =>
    have hstep := listener_step_of_call setup hc (listenerAnswers recipient)
    exact ⟨⟨[_], Machine.run_cons.mpr ⟨_, hstep, rfl⟩, rfl⟩, [], rfl⟩
  | task htask =>
    have hstep := tasks_step_of_call setup htask (taskAnswers recipient)
    exact ⟨⟨[], rfl, rfl⟩, [_], Machine.run_cons.mpr ⟨_, hstep, rfl⟩⟩

/-- An event is at most one step of each half. -/
theorem Stepped.halves {event : App.Event} (h : Stepped setup s event s') :
    (∃ events, s.listener.run setup.handleLine events = some s'.listener ∧
        linesOf events = streamLines [event]) ∧
      ∃ events, Machine.run (BackgroundTasks.System.step setup.delivery setup.config) s.tasks events
        = some s'.tasks := by
  cases h with
  | @listener event _ hown hstep =>
    exact ⟨⟨[event], Machine.run_cons.mpr ⟨_, hstep, rfl⟩, rfl⟩, [], rfl⟩
  | @tasks event _ hown hstep =>
    exact ⟨⟨[], rfl, rfl⟩, [event], Machine.run_cons.mpr ⟨_, hstep, rfl⟩⟩
  | remember hc hclient =>
    have hstep := listener_step_of_call setup hc Inbound.calmAnswers
    exact ⟨⟨[_], Machine.run_cons.mpr ⟨_, hstep, rfl⟩, rfl⟩, [], rfl⟩
  | found hasks hnew hclient hreply | late hmem hclient hreply | listed hlisting hclient hreply =>
    exact hreply.halves
  | queued | asked => exact ⟨⟨[], rfl, rfl⟩, [], rfl⟩

/-! ### The client -/

section
variable {client client' : SignalClient.Client} {chatId : PyStr} {ret : Return}

/-- A lookup that ends at once leaves the client as it was. -/
theorem resolve_some (h : client.step (.resolve chatId) = some (client', some ret)) :
    ret.chatId = chatId ∧ client' = client := by
  cases Recipients.step_cases h with
  | kept | hit => exact ⟨rfl, rfl⟩

/-- A lookup that does not end waits for the lock. -/
theorem resolve_none (h : client.step (.resolve chatId) = some (client', none)) :
    client'.waiting = client.waiting ++ [chatId] ∧ client'.listing = client.listing := by
  cases Recipients.step_cases h with
  | queued => exact ⟨rfl, rfl⟩

/-- A lookup that ends under the lock gives the lock back. -/
theorem enter_some (h : client.step (.enter chatId) = some (client', some ret)) :
    ret.chatId = chatId ∧ client'.waiting = client.waiting.erase chatId ∧
      client'.listing = client.listing := by
  cases Recipients.step_cases h with
  | late => exact ⟨rfl, rfl, rfl⟩

/-- A lookup that needs the contacts keeps the lock. -/
theorem enter_none (h : client.step (.enter chatId) = some (client', none)) :
    client'.waiting = client.waiting.erase chatId ∧ client'.listing = some chatId := by
  cases Recipients.step_cases h with
  | asked => exact ⟨rfl, rfl⟩

/-- The contacts end the lookup that holds the lock. -/
theorem contacts_some {result : Json}
    (h : client.step (.contacts result) = some (client', some ret)) :
    client.listing = some ret.chatId ∧ client'.waiting = client.waiting ∧
      client'.listing = none := by
  cases Recipients.step_cases h with
  | scanned hlisting => exact ⟨hlisting, rfl, rfl⟩

/-- A pair that is remembered does not touch the lock. -/
theorem remember_lock {number serviceId : Json} {ret : Option Return}
    (h : client.step (.remember number serviceId) = some (client', ret)) :
    client'.waiting = client.waiting ∧ client'.listing = client.listing := by
  cases Recipients.step_cases h with
  | remembered | refused => exact ⟨rfl, rfl⟩

end

/-- The lock is kept in order. -/
theorem Queued.step {ttl sweepInterval nowMs : ℚ} (h : Queued s)
    (hinv : BackgroundTasks.Inv setup.delivery setup.config ttl sweepInterval nowMs s.tasks)
    {event : App.Event} (hstep : Stepped setup s event s') : Queued s' := by
  cases hstep with
  | listener hown hstep =>
    refine h.same rfl rfl rfl rfl fun caller chatId _ hasks => ?_
    cases caller with
    | listener => exact asks_of_listener_step (fun hanswer => (hown hanswer).2) hstep hasks
    | task id => exact hasks
  | tasks hown hstep =>
    refine h.same rfl rfl rfl rfl fun caller chatId _ hasks => ?_
    cases caller with
    | listener => exact hasks
    | task id => exact asks_of_tasks_step hinv hown hstep hasks
  | remember hc hclient =>
    obtain ⟨hwaiting, hlisting⟩ := remember_lock hclient
    -- The listener was at the write to the caches, so it asks for nothing.
    refine h.same rfl rfl hwaiting hlisting fun caller chatId _ hasks => ?_
    cases caller with
    | listener =>
      obtain ⟨next, hlookup⟩ := asks_listener_iff.mp hasks
      cases hc.symm.trans hlookup
    | task id => exact hasks
  | found hasks hnew hclient hreply =>
    obtain ⟨-, rfl⟩ := resolve_some hclient
    exact (h.same rfl rfl rfl rfl fun _ _ _ => id : Queued (s.touch _ _)).reply hreply hnew.1 hnew.2
  | queued hasks hnew hclient =>
    obtain ⟨hwaiting, hlisting⟩ := resolve_none hclient
    exact h.queue hasks hnew.1 hnew.2 hwaiting hlisting
  | @late caller chatId client ret s' hmem hclient hreply =>
    obtain ⟨-, hwaiting, hlisting⟩ := enter_some hclient
    -- The caller has left the queue before its call goes on.
    obtain ⟨hgone, hleft⟩ := h.leave hmem hwaiting hlisting
    refine hleft.reply hreply hgone fun hholder => ?_
    exact (h.holder caller hholder).1 (List.mem_map_of_mem hmem)
  | @asked caller chatId client hmem hclient =>
    obtain ⟨hwaiting, hlisting⟩ := enter_none hclient
    -- The caller moves from the queue to the lock.
    obtain ⟨hgone, hleft⟩ := @Queued.leave s h caller chatId hmem (.enter chatId)
      { client with listing := s.client.listing } hwaiting rfl
    refine ⟨hleft.waiting, hleft.nodup, hleft.perm, fun other hother => ?_, fun hfree => ?_⟩
    · obtain rfl := Option.some.inj hother
      exact ⟨hgone, chatId, hlisting, h.waiting _ hmem⟩
    · cases hfree
  | @listed caller result client ret s' hlisting hclient hreply =>
    obtain ⟨-, hwaiting, hfree⟩ := contacts_some hclient
    have hleft : Queued { s.touch (.contacts result) client with listing := none } := by
      refine ⟨h.waiting, h.nodup, ?_, fun other hother => ?_, fun _ => hfree⟩
      · show client.waiting.Perm _
        rw [hwaiting]
        exact h.perm
      · cases hother
    exact hleft.reply hreply (h.holder caller hlisting).1 (by simp)

/-! ### What is looked up -/

/-- A lookup that has ended was routed well. -/
def Lookup (history : List SignalClient.Event) : SignalGateway.Client.calls.Event → Prop
  | ⟨.resolveRecipient chatId, recipient⟩ => WellRouted history ⟨chatId, recipient⟩
  | _ => True

/-- The lookups of a call of the listener. -/
def ListenerLookup (history : List SignalClient.Event) : Inbound.calls.Event → Prop
  | ⟨.client op, answer⟩ => Lookup history ⟨op, answer⟩
  | _ => True

/-- The lookups of a call of a task. -/
def TaskLookup (history : List SignalClient.Event) : Outbound.calls.Event → Prop
  | ⟨.client op, answer⟩ => Lookup history ⟨op, answer⟩
  | _ => True

/-- A lookup stays one as the history goes on. -/
theorem Lookup.append {history : List SignalClient.Event} {ev : SignalGateway.Client.calls.Event}
    (h : Lookup history ev) (more : List SignalClient.Event) : Lookup (history ++ more) ev := by
  obtain ⟨op, answer⟩ := ev
  cases op with
  | resolveRecipient chatId =>
    have hrouted : WellRouted history ⟨chatId, answer⟩ := h
    exact ⟨fun recipient hok => (hrouted.recipient recipient hok).imp_right
      fun ⟨hid, hobserved⟩ => ⟨hid, hobserved.append more⟩, hrouted.unchanged⟩
  | estimateWait n => exact trivial
  | rpc op => exact trivial

/-- The same for the calls of the listener. -/
theorem ListenerLookup.append {history : List SignalClient.Event} {ev : Inbound.calls.Event}
    (h : ListenerLookup history ev) (more : List SignalClient.Event) :
    ListenerLookup (history ++ more) ev := by
  obtain ⟨op, answer⟩ := ev
  cases op with
  | client op => exact Lookup.append h more
  | cacheIdentifiers number serviceId => exact trivial
  | worker op => exact trivial

/-- The same for the calls of a task. -/
theorem TaskLookup.append {history : List SignalClient.Event} {ev : Outbound.calls.Event}
    (h : TaskLookup history ev) (more : List SignalClient.Event) :
    TaskLookup (history ++ more) ev := by
  obtain ⟨op, answer⟩ := ev
  cases op with
  | client op => exact Lookup.append h more
  | own op => exact trivial

/-- The calls that an event adds, with their lookups. -/
structure Adds (history : List SignalClient.Event) (s s' : System) : Prop where
  log : ∃ more, s'.listener.log = s.listener.log ++ more ∧
    ∀ ev ∈ more, ListenerLookup history ev
  made : ∃ more, s'.tasks.pool.made = s.tasks.pool.made ++ more ∧
    ∀ call ∈ more, TaskLookup history call.2

/-- A step that logs no call adds nothing. -/
theorem adds_nothing {history : List SignalClient.Event}
    (hlog : s'.listener.log = s.listener.log)
    (hmade : s'.tasks.pool.made = s.tasks.pool.made) : Adds history s s' where
  log := ⟨[], by simpa using hlog, fun _ hev => absurd hev List.not_mem_nil⟩
  made := ⟨[], by simpa using hmade, fun _ hcall => absurd hcall List.not_mem_nil⟩

/-- Only the two halves count. -/
theorem Adds.congr {s₀ : System} {history : List SignalClient.Event} (h : Adds history s₀ s')
    (hlistener : s₀.listener = s.listener) (htasks : s₀.tasks = s.tasks) : Adds history s s' := by
  obtain ⟨hlog, hmade⟩ := h
  rw [hlistener] at hlog
  rw [htasks] at hmade
  exact ⟨hlog, hmade⟩

/-- The end of a lookup is one call. -/
theorem Replied.adds {recipient : Except PyError Json} {caller : Caller} {chatId : PyStr}
    {history : List SignalClient.Event} (h : Replied s recipient caller s')
    (hasks : s.asks caller = some chatId) (hrouted : WellRouted history ⟨chatId, recipient⟩) :
    Adds history s s' := by
  cases h with
  | @listener chatId' next hc =>
    obtain rfl := Option.some.inj ((asks_listener_iff.mpr ⟨next, hc⟩).symm.trans hasks)
    refine ⟨⟨_, Connection.goOn_log _, fun ev hev => ?_⟩, [], (List.append_nil _).symm,
      fun _ hcall => absurd hcall List.not_mem_nil⟩
    rw [List.mem_singleton.mp hev]
    exact hrouted
  | @task id job chatId' next htask =>
    obtain rfl := Option.some.inj ((asks_task_iff.mpr ⟨job, next, htask⟩).symm.trans hasks)
    refine ⟨⟨[], (List.append_nil _).symm, fun _ hev => absurd hev List.not_mem_nil⟩, _, rfl,
      fun call hcall => ?_⟩
    rw [List.mem_singleton.mp hcall]
    exact hrouted

/-- The listener makes at most one call, which is no lookup. -/
theorem adds_of_listener_step {event : Connection.Timed Inbound.calls}
    {listener : Connection.System Inbound.calls} {history : List SignalClient.Event}
    (hown : isAnswer event.1 = true → s.asks .listener = none)
    (hstep : s.listener.step setup.handleLine event = some listener) :
    Adds history s { s with listener } := by
  obtain ⟨event, now⟩ := event
  cases event with
  | monitor e => exact adds_nothing (Connection.step_monitor hstep).2.sameConsumer.log rfl
  | consumer e =>
    cases (Connection.step_consumer hstep).2 with
    | @answered answer op next hc =>
      refine ⟨⟨_, Connection.goOn_log _, fun ev hev => ?_⟩, [], (List.append_nil _).symm,
        fun _ hcall => absurd hcall List.not_mem_nil⟩
      rw [List.mem_singleton.mp hev]
      -- A lookup is answered by the client, not here.
      have hnone := hown rfl
      cases op with
      | client op =>
        cases op with
        | resolveRecipient chatId =>
          rw [asks_listener_iff.mpr ⟨next, hc⟩] at hnone
          cases hnone
        | estimateWait n => exact trivial
        | rpc op => exact trivial
      | cacheIdentifiers number serviceId => exact trivial
      | worker op => exact trivial
    | line => exact adds_nothing (Connection.goOn_log _) rfl
    | connectFailed | connected | refused | streamEnded | closed | woken | timedOut =>
      exact adds_nothing rfl rfl

/-- The server and its tasks make at most one call, which is no lookup. -/
theorem adds_of_tasks_step {event : BackgroundTasks.Event} {tasks : BackgroundTasks.System}
    {history : List SignalClient.Event} (hown : ∀ id ∈ answeredTask event, s.asks (.task id) = none)
    (hstep : s.tasks.step setup.delivery setup.config event = some tasks) :
    Adds history s { s with tasks } := by
  rcases BackgroundTasks.step_cases hstep with
    ⟨id, request, now, server, record, rfl, hserver, rfl⟩ | ⟨id, answer, pool, rfl, hcall, rfl⟩ |
    ⟨id, now, pool, payload, r, server, record, rfl, hfinish, hserver, rfl⟩ |
    ⟨id, now, pool, payload, r, rfl, hfinish, rfl⟩
  · exact adds_nothing rfl (BackgroundTasks.made_request)
  · obtain ⟨job, op, next, htask, rfl⟩ := Pool.call_eq_some.mp hcall
    refine ⟨⟨[], (List.append_nil _).symm, fun _ hev => absurd hev List.not_mem_nil⟩, _, rfl,
      fun call hmem => ?_⟩
    rw [List.mem_singleton.mp hmem]
    -- A lookup is answered by the client, not here.
    have hnone := hown id rfl
    cases op with
    | client op =>
      cases op with
      | resolveRecipient chatId =>
        rw [asks_task_iff.mpr ⟨job, next, htask⟩] at hnone
        cases hnone
      | estimateWait n => exact trivial
      | rpc op => exact trivial
    | own op => exact trivial
  · exact adds_nothing rfl (Pool.made_finish hfinish)
  · exact adds_nothing rfl (Pool.made_finish hfinish)

/-- One event keeps the client in order, and adds only lookups that were routed well. -/
theorem Stepped.adds {event : App.Event} (h : Stepped setup s event s') (hq : Queued s)
    (hc : Consistent s.history s.client) :
    Consistent s'.history s'.client ∧ Adds s'.history s s' := by
  cases h with
  | listener hown hstep => exact ⟨hc, adds_of_listener_step (fun ha => (hown ha).2) hstep⟩
  | tasks hown hstep => exact ⟨hc, adds_of_tasks_step hown hstep⟩
  | remember hconsumer hclient =>
    refine ⟨(Recipients.consistent_step hc hclient).1, ⟨_, Connection.goOn_log _, fun ev hev => ?_⟩,
      [], (List.append_nil _).symm, fun _ hcall => absurd hcall List.not_mem_nil⟩
    rw [List.mem_singleton.mp hev]
    exact trivial
  | found hasks hnew hclient hreply =>
    obtain ⟨hnext, hrouted⟩ := Recipients.consistent_step hc hclient
    obtain ⟨rfl, -⟩ := resolve_some hclient
    rw [hreply.client_eq, hreply.history_eq]
    exact ⟨hnext, (hreply.adds hasks (hrouted _ rfl)).congr rfl rfl⟩
  | queued hasks hnew hclient =>
    exact ⟨(Recipients.consistent_step hc hclient).1, adds_nothing rfl rfl⟩
  | late hmem hclient hreply =>
    obtain ⟨hnext, hrouted⟩ := Recipients.consistent_step hc hclient
    obtain ⟨rfl, -, -⟩ := enter_some hclient
    rw [hreply.client_eq, hreply.history_eq]
    exact ⟨hnext, (hreply.adds (hq.waiting _ hmem) (hrouted _ rfl)).congr rfl rfl⟩
  | asked hmem hclient =>
    exact ⟨(Recipients.consistent_step hc hclient).1, adds_nothing rfl rfl⟩
  | listed hlisting hclient hreply =>
    obtain ⟨hnext, hrouted⟩ := Recipients.consistent_step hc hclient
    obtain ⟨-, chatId, hlisted, hasks⟩ := hq.holder _ hlisting
    obtain ⟨hlisting', -, -⟩ := contacts_some hclient
    obtain rfl := Option.some.inj (hlisted.symm.trans hlisting')
    rw [hreply.client_eq, hreply.history_eq]
    exact ⟨hnext, (hreply.adds hasks (hrouted _ rfl)).congr rfl rfl⟩

/-- Where the events of the client come from: a pair from a call of the listener, and a list of
contacts from an event. -/
def Sourced (events : List App.Event) (s : System) : SignalClient.Event → Prop
  | .remember number serviceId =>
      (⟨.cacheIdentifiers number serviceId, ()⟩ : Inbound.calls.Event) ∈ s.listener.log
  | .contacts result => .contacts result ∈ events
  | _ => True

/-- An event of the process is at most one event of the client. -/
theorem Stepped.history {event : App.Event} (h : Stepped setup s event s') :
    ∃ more, s'.history = s.history ++ more ∧ ∀ e ∈ more, Sourced [event] s' e := by
  cases h with
  | listener | tasks => exact ⟨[], (List.append_nil _).symm, fun _ he => absurd he List.not_mem_nil⟩
  | remember hc hclient =>
    refine ⟨_, rfl, fun e he => ?_⟩
    rw [List.mem_singleton.mp he, Sourced, System.answerListener, Connection.goOn_log]
    simp
  | found hasks hnew hclient hreply | late hmem hclient hreply =>
    refine ⟨_, hreply.history_eq, fun e he => ?_⟩
    rw [List.mem_singleton.mp he]
    exact trivial
  | queued | asked =>
    refine ⟨_, rfl, fun e he => ?_⟩
    rw [List.mem_singleton.mp he]
    exact trivial
  | listed hlisting hclient hreply =>
    refine ⟨_, hreply.history_eq, fun e he => ?_⟩
    rw [List.mem_singleton.mp he]
    exact List.mem_singleton.mpr rfl

/-! ### The invariant -/

/-- What holds in every run: each half is in a run of its own, and the client and its lock are in
order. -/
structure Inv (setup : Setup) (ttl sweepInterval nowMs now : ℚ) (events : List App.Event)
    (s : System) : Prop where
  listener : ∃ es, (Connection.System.start Inbound.calls now).run setup.handleLine es
    = some s.listener ∧ linesOf es = streamLines events
  tasks : ∃ es, Machine.run (BackgroundTasks.System.step setup.delivery setup.config)
    (.create ttl sweepInterval nowMs) es = some s.tasks
  queued : Queued s
  consistent : Consistent s.history s.client
  heard : ∀ ev ∈ s.listener.log, ListenerLookup s.history ev
  made : ∀ call ∈ s.tasks.pool.made, TaskLookup s.history call.2
  sourced : ∀ e ∈ s.history, Sourced events s e

variable {ttl sweepInterval nowMs now : ℚ} {events : List App.Event}

/-- The invariant of the start. -/
theorem inv_start :
    Inv setup ttl sweepInterval nowMs now [] (.start ttl sweepInterval nowMs now) where
  listener := ⟨[], rfl, rfl⟩
  tasks := ⟨[], rfl⟩
  queued := {
    waiting := fun _ h => absurd h List.not_mem_nil
    nodup := List.nodup_nil
    perm := .nil
    holder := fun _ h => (by cases h)
    free := fun _ => rfl }
  consistent := Recipients.consistent_start
  heard _ h := absurd h List.not_mem_nil
  made _ h := absurd h List.not_mem_nil
  sourced _ h := absurd h List.not_mem_nil

/-- What has a source keeps it. -/
theorem Sourced.mono {events' : List App.Event} {e : SignalClient.Event}
    (h : Sourced events s e) (hevents : ∀ event ∈ events, event ∈ events')
    (hlog : ∀ ev ∈ s.listener.log, ev ∈ s'.listener.log) : Sourced events' s' e := by
  cases e with
  | remember number serviceId => exact hlog _ h
  | contacts result => exact hevents _ h
  | resolve chatId => exact trivial
  | enter chatId => exact trivial

/-- A step keeps the invariant. -/
theorem inv_step (h : Inv setup ttl sweepInterval nowMs now events s) {event : App.Event}
    (hstep : s.step setup event = some s') :
    Inv setup ttl sweepInterval nowMs now (events ++ [event]) s' := by
  have hcases := step_cases hstep
  obtain ⟨⟨es, hlistener, hlines⟩, es', htasks⟩ := hcases.halves
  obtain ⟨hconsistent, ⟨log, hlog, hheard⟩, made, hmade, hlookups⟩ :=
    hcases.adds h.queued h.consistent
  obtain ⟨more, hhistory, hsourced⟩ := hcases.history
  obtain ⟨before, hbefore, hbeforeLines⟩ := h.listener
  obtain ⟨before', hbefore'⟩ := h.tasks
  constructor
  case listener =>
    refine ⟨before ++ es, Machine.run_append.mpr ⟨_, hbefore, hlistener⟩, ?_⟩
    rw [Connection.linesOf_append, hbeforeLines, hlines]
    exact List.filterMap_append.symm
  case tasks => exact ⟨before' ++ es', Machine.run_append.mpr ⟨_, hbefore', htasks⟩⟩
  case queued => exact h.queued.step (BackgroundTasks.inv_run hbefore') hcases
  case consistent => exact hconsistent
  case heard =>
    rw [hlog, List.forall_mem_append]
    refine ⟨fun ev hev => ?_, hheard⟩
    rw [hhistory]
    exact (h.heard ev hev).append more
  case made =>
    rw [hmade, List.forall_mem_append]
    refine ⟨fun call hcall => ?_, hlookups⟩
    rw [hhistory]
    exact (h.made call hcall).append more
  case sourced =>
    rw [hhistory, List.forall_mem_append]
    refine ⟨fun e he => ?_, fun e he => ?_⟩
    · refine (h.sourced e he).mono (fun _ hevent => List.mem_append_left _ hevent) fun ev hev => ?_
      rw [hlog]
      exact List.mem_append_left _ hev
    · exact (hsourced e he).mono (fun _ hevent => List.mem_append_right _ hevent) fun _ hev => hev

/-- The invariant holds in every run. -/
theorem inv_run (h : (System.start ttl sweepInterval nowMs now).run setup events = some s) :
    Inv setup ttl sweepInterval nowMs now events s :=
  Machine.run_induction (motive := fun events s => Inv setup ttl sweepInterval nowMs now events s)
    inv_start (fun _ _ _ _ h hstep => inv_step h hstep) h

/-! ### The client on its own -/

/-- A run of the client can be cut anywhere. -/
theorem client_run_append (events more : List SignalClient.Event) :
    ∀ client : SignalClient.Client,
      client.run (events ++ more) = (client.run events).bind fun client => client.run more := by
  induction events with
  | nil => exact fun client => rfl
  | cons event events ih =>
    intro client
    rw [List.cons_append, SignalClient.Client.run, SignalClient.Client.run]
    cases client.step event with
    | none => rfl
    | some next => exact ih next.1

/-- A step of the client is a run. -/
theorem client_run_singleton {client client' : SignalClient.Client} {event : SignalClient.Event}
    {ret : Option Return} (h : client.step event = some (client', ret)) :
    client.run [event] = some client' := by
  rw [SignalClient.Client.run, h]
  rfl

/-- An event of the process is a run of the client. -/
theorem Stepped.client {event : App.Event} (h : Stepped setup s event s') :
    ∃ more, s'.history = s.history ++ more ∧ s.client.run more = some s'.client := by
  cases h with
  | listener | tasks => exact ⟨[], (List.append_nil _).symm, rfl⟩
  | remember hc hclient => exact ⟨_, rfl, client_run_singleton hclient⟩
  | queued hasks hnew hclient => exact ⟨_, rfl, client_run_singleton hclient⟩
  | asked hmem hclient => exact ⟨_, rfl, client_run_singleton hclient⟩
  | found hasks hnew hclient hreply | late hmem hclient hreply | listed hlisting hclient hreply =>
    refine ⟨_, hreply.history_eq, ?_⟩
    rw [hreply.client_eq]
    exact client_run_singleton hclient

/-- What has happened to the client is a run of the client on its own. -/
theorem client_run (h : (System.start ttl sweepInterval nowMs now).run setup events = some s) :
    ({} : SignalClient.Client).run s.history = some s.client := by
  refine Machine.run_induction
    (motive := fun _ s => ({} : SignalClient.Client).run s.history = some s.client) rfl ?_ h
  intro events event s s' ih hstep
  obtain ⟨more, hhistory, hmore⟩ := (step_cases hstep).client
  rw [hhistory, client_run_append, ih]
  exact hmore

end

end SignalGateway.Proofs.App
