import SignalGateway.Proofs.App

/-!
# `SignalGateway.Proofs.Lookups`: what a lookup returns, and that it returns

`recipients_learned` says where the RPCs of the process go, down to the lines of the stream and
the records of the contacts. `known_for_good` says that a number that has a service id once is
never asked for again. `lookup_proceeds` says that no lookup is stuck.

How they are proved:

* `recipients_learned`: `Inv.learned` follows the recipient of a lookup back. It is the chat id, or
  an id that the caches have. An id in the caches was remembered by the listener, which took it
  from a message, or scanned from a list of contacts.
* `known_for_good`: no step takes an id away (`Known.step`), and a lookup that finds one ends
  before it asks for the lock.
* `lookup_proceeds`: the holder of the lock gets its contacts, and then a caller that waits can
  enter. `CanReturn` counts the events, and four are always enough.
-/

set_option autoImplicit false

namespace SignalGateway.Proofs.App

open SignalGateway.Envelope SignalGateway.SignalClient SignalGateway.App
open SignalGateway.Proofs.Recipients (WellRouted)

section
variable {setup : Setup} {s s' : System} {ttl sweepInterval nowMs now : ℚ}
  {events : List App.Event}

/-! ### Where messages go -/

/-- A recipient for a chat id: the chat id itself, or for a number a service id. A message from
that number with that id has arrived on the stream, or a record of the contacts has both. -/
def Learned (setup : Setup) (events : List App.Event) (chatId : PyStr) (recipient : Json) : Prop :=
  recipient = .str chatId ∨
    looksLikeE164Number chatId = true ∧ isSignalServiceId recipient = .ok true ∧
      ((∃ line ∈ streamLines events, ∃ message,
          Listener.accepted setup.loads setup.repr setup.settings line = some message ∧
            message.sourceNumber = .str chatId ∧ message.sourceUuid = recipient) ∨
        ∃ contacts contact, .contacts (.arr contacts) ∈ events ∧ contact ∈ contacts ∧
          Recipients.RecordHas contact (.str chatId) recipient)

/-- A pair that the listener caches stands in a message. -/
theorem Inv.cached (h : Inv setup ttl sweepInterval nowMs now events s) {number serviceId : Json}
    (hmem : (⟨.cacheIdentifiers number serviceId, ()⟩ : Inbound.calls.Event) ∈ s.listener.log) :
    ∃ line ∈ streamLines events, ∃ message,
      Listener.accepted setup.loads setup.repr setup.settings line = some message ∧
        message.sourceNumber = number ∧ message.sourceUuid = serviceId := by
  obtain ⟨es, hrun, hlines⟩ := h.listener
  have hcontract : ∀ line, (setup.handleLine line).Contract (fun _ => True) (fun op =>
      ∃ message, Listener.accepted setup.loads setup.repr setup.settings line = some message ∧
        Inbound.MessageOp setup.settings (fun _ _ => True) message op) fun _ => True :=
    Inbound.line_contract fun _ _ _ => trivial
  obtain ⟨line, hline, message, haccepted, hop⟩ :=
    Connection.contract_run hcontract hrun (fun _ _ => trivial) _ hmem
  exact ⟨line, hlines ▸ hline, message, haccepted, hop⟩

/-- A lookup returns what has been learned. -/
theorem Inv.learned (h : Inv setup ttl sweepInterval nowMs now events s) {chatId : PyStr}
    {recipient : Json} (hrouted : WellRouted s.history ⟨chatId, .ok recipient⟩) :
    Learned setup events chatId recipient := by
  rcases hrouted.recipient recipient rfl with hsame | ⟨hid, e, he, hshown⟩
  · exact .inl hsame
  · by_cases hnumber : looksLikeE164Number chatId = true
    · refine .inr ⟨hnumber, hid, ?_⟩
      have hsourced := h.sourced e he
      cases hshown with
      | envelope => exact .inl (h.cached hsourced)
      | @contact contacts contact hmem hhas => exact .inr ⟨contacts, contact, hsourced, hmem, hhas⟩
    · -- Nothing else is looked up.
      have hkeeps : Recipients.KeepsChatId chatId := .inr (.inr (.inr (by simpa using hnumber)))
      exact .inl (Except.ok.inj (hrouted.unchanged hkeeps))

/-- The calls for a callback go to its recipient. -/
theorem Inv.delivery (hinv : Inv setup ttl sweepInterval nowMs now events s) {id : Nat}
    {job : BackgroundTasks.Job} (hscheduled : BackgroundTasks.Scheduled s.tasks.records id job) :
    ∀ ev ∈ Pool.ownCalls id s.tasks.pool.made,
      Outbound.DeliveryOp setup.settings (Dispatch.recipient job.payload)
        (Learned setup events (Dispatch.recipient job.payload)) ev.1 := by
  obtain ⟨es, hrun⟩ := hinv.tasks
  have htasks := BackgroundTasks.inv_run hrun
  obtain ⟨rest, hafter⟩ := htasks.after ((htasks.known_iff _ _).mpr hscheduled)
  have hcontract : (setup.delivery id job).Contract (TaskLookup s.history)
      (Outbound.DeliveryOp setup.settings (Dispatch.recipient job.payload)
        (Learned setup events (Dispatch.recipient job.payload))) fun _ => True :=
    Outbound.deliver_contract fun recipient hlookup => hinv.learned hlookup
  exact Prog.Contract.after hafter hcontract fun ev hev =>
    hinv.made _ (Pool.mem_ownCalls.mp hev)

/-- In every run of the process, whatever its two halves do at the same time, an RPC of a delivery
goes to the recipient of its callback, and a reaction of the listener to the chat of its message.
If that is a number, it stands for itself or for a service id that was learned with it. -/
theorem recipients_learned
    (h : (System.start ttl sweepInterval nowMs now).run setup events = some s) :
    (∀ call ∈ s.tasks.pool.made, ∃ job, BackgroundTasks.Scheduled s.tasks.records call.1 job ∧
        Outbound.DeliveryOp setup.settings (Dispatch.recipient job.payload)
          (Learned setup events (Dispatch.recipient job.payload)) call.2.1) ∧
      ∀ ev ∈ s.listener.log, ∃ line ∈ streamLines events, ∃ message,
        Listener.accepted setup.loads setup.repr setup.settings line = some message ∧
          Inbound.MessageOp setup.settings (Learned setup events) message ev.1 := by
  have hinv := inv_run h
  constructor
  · intro call hcall
    obtain ⟨es, hrun⟩ := hinv.tasks
    have htasks := BackgroundTasks.inv_run hrun
    obtain ⟨job, hknown⟩ := htasks.valid.known call hcall
    have hscheduled := (htasks.known_iff _ _).mp hknown
    exact ⟨job, hscheduled, hinv.delivery hscheduled _ (Pool.mem_ownCalls.mpr hcall)⟩
  · obtain ⟨es, hrun, hlines⟩ := hinv.listener
    -- The handler sends to what its lookups returned.
    have hcontract : ∀ line, (setup.handleLine line).Contract (ListenerLookup s.history) (fun op =>
        ∃ message, Listener.accepted setup.loads setup.repr setup.settings line = some message ∧
          Inbound.MessageOp setup.settings (Learned setup events) message op) fun _ => True :=
      Inbound.line_contract fun chatId recipient hlookup => hinv.learned hlookup
    rw [← hlines]
    exact Connection.contract_run hcontract hrun hinv.heard

/-- The process of the example. -/
def exampleSetup : Setup where
  loads := Listener.sampleLoads
  repr _ := .ok []
  listGt _ _ := .ok false
  isWord := Markdown.asciiWord
  netlocOk _ := true
  settings := BackgroundTasks.exampleSettings
  engineBaseUrl := lit "https://engine.example"
  workspace _ := lit "/tmp/reply"

/-- A reply for a number is accepted, and its first call looks the number up. -/
def lookupBegins : List App.Event :=
  [.tasks (.request 0 (CallbackServer.exampleRequest "+15550100" "17") 1), .resolve (.task 0),
    .enter (.task 0) (lit "+15550100")]

/-- The contacts have the number, and the delivery sends its text. -/
def lookupEnds : List App.Event :=
  [.contacts (.arr [.obj [(lit "number", .str (lit "+15550100")),
      (lit "uuid", .str (lit "PNI:4c1f"))]]),
    .tasks (.answered 0 BackgroundTasks.friendlyAnswers)]

/-- The recipient of a reply is learned from a contact. -/
theorem recipients_learned_contact :
    ∃ s, (System.start CallbackServer.dedupTtlMs 60000 0 0).run exampleSetup
      (lookupBegins ++ lookupEnds) = some s ∧
    (∀ call ∈ s.tasks.pool.made, ∃ job, BackgroundTasks.Scheduled s.tasks.records call.1 job ∧
        Outbound.DeliveryOp exampleSetup.settings (Dispatch.recipient job.payload)
          (Learned exampleSetup (lookupBegins ++ lookupEnds) (Dispatch.recipient job.payload))
          call.2.1) ∧
      ∀ ev ∈ s.listener.log, ∃ line ∈ streamLines (lookupBegins ++ lookupEnds), ∃ message,
        Listener.accepted exampleSetup.loads exampleSetup.repr exampleSetup.settings line
            = some message ∧
          Inbound.MessageOp exampleSetup.settings
            (Learned exampleSetup (lookupBegins ++ lookupEnds)) message ev.1 := by
  obtain ⟨s, hrun⟩ := Option.isSome_iff_exists.mp
    (show ((System.start CallbackServer.dedupTtlMs 60000 0 0).run exampleSetup
      (lookupBegins ++ lookupEnds)).isSome = true by decide +kernel)
  exact ⟨s, hrun, recipients_learned hrun⟩

/-! ### The calls of a caller -/

/-- The call of the client among those of the listener. -/
def listenerCall : Inbound.calls.Event → Option SignalGateway.Client.calls.Event
  | ⟨.client op, answer⟩ => some ⟨op, answer⟩
  | _ => none

/-- The same for a task. -/
def taskCall : Outbound.calls.Event → Option SignalGateway.Client.calls.Event
  | ⟨.client op, answer⟩ => some ⟨op, answer⟩
  | _ => none

/-- The calls of the client that a caller has made. -/
def clientCalls (s : System) : Caller → List SignalGateway.Client.calls.Event
  | .listener => s.listener.log.filterMap listenerCall
  | .task id => (Pool.ownCalls id s.tasks.pool.made).filterMap taskCall

/-- A caller that looks something up can go on with any result. -/
theorem exists_reply {caller : Caller} {chatId : PyStr} (hasks : s.asks caller = some chatId)
    (recipient : Except PyError Json) : ∃ s', s.reply recipient caller = some s' := by
  cases caller with
  | listener =>
    obtain ⟨next, hc⟩ := asks_listener_iff.mp hasks
    exact ⟨_, by rw [System.reply, hc]⟩
  | task id =>
    obtain ⟨job, next, htask⟩ := asks_task_iff.mp hasks
    exact ⟨_, by rw [System.reply, htask]⟩

/-- The end of a lookup is one call of its caller. -/
theorem Replied.clientCalls_self {recipient : Except PyError Json} {caller : Caller}
    {chatId : PyStr} (h : Replied s recipient caller s') (hasks : s.asks caller = some chatId) :
    clientCalls s' caller = clientCalls s caller ++ [⟨.resolveRecipient chatId, recipient⟩] := by
  cases h with
  | @listener chatId' next hc =>
    obtain rfl := Option.some.inj ((asks_listener_iff.mpr ⟨next, hc⟩).symm.trans hasks)
    simp only [clientCalls, System.answerListener, Connection.goOn_log, List.filterMap_append]
    rfl
  | @task id job chatId' next htask =>
    obtain rfl := Option.some.inj ((asks_task_iff.mpr ⟨job, next, htask⟩).symm.trans hasks)
    simp only [clientCalls, System.answerTask, Pool.ownCalls_append, Pool.ownCalls_singleton,
      if_true, List.filterMap_append]
    rfl

/-- The calls of the others stay as they are. -/
theorem Replied.clientCalls_eq {recipient : Except PyError Json} {caller : Caller}
    (h : Replied s recipient caller s') {other : Caller} (hne : other ≠ caller) :
    clientCalls s' other = clientCalls s other := by
  cases h with
  | listener hc =>
    cases other with
    | listener => exact absurd rfl hne
    | task id => rfl
  | @task id job chatId next htask =>
    cases other with
    | listener => rfl
    | task id' =>
      have hid : ¬ id = id' := fun heq => hne (heq ▸ rfl)
      simp only [clientCalls, System.answerTask, Pool.ownCalls_append, Pool.ownCalls_singleton,
        if_neg hid, List.append_nil]

/-! ### Known numbers -/

/-- The caches have an id for the number. -/
def Known (ids : Identifiers) (number : PyStr) : Prop := (ids.cached number).isSome = true

/-- The first item, or one of the others. -/
theorem getItem_cons (key : Json) (item : Json × Json) (items : List (Json × Json)) :
    getItem key (item :: items) = if sameKey item.1 key then some item.2 else getItem key items := by
  unfold getItem
  rw [List.find?_cons]
  split <;> simp_all

/-- An assignment of an id takes no id away. -/
theorem isSome_setItem {key value : Json} (hvalue : value.truthy = true) {number : PyStr} :
    ∀ {items : List (Json × Json)},
      ((getItem (.str number) items).filter Json.truthy).isSome = true →
      ((getItem (.str number) (setItem key value items)).filter Json.truthy).isSome = true := by
  intro items
  induction items with
  | nil => exact fun h => by cases h
  | cons item items ih =>
    intro h
    rw [getItem_cons] at h
    rw [setItem]
    split
    · rw [getItem_cons]
      split
      · simp [Option.filter, hvalue]
      · next hkey =>
        rw [if_neg hkey] at h
        exact h
    · rw [getItem_cons]
      split
      · next hkey =>
        rw [if_pos hkey] at h
        exact h
      · next hkey =>
        rw [if_neg hkey] at h
        exact ih h

/-- A pair that is remembered takes no other one away. -/
theorem Known.remember {ids ids' : Identifiers} {number : PyStr} (h : Known ids number)
    {number' serviceId : Json} (hids : ids.remember number' serviceId = .ok ids') :
    Known ids' number := by
  obtain ⟨pair, hpair, hids⟩ := Envelope.bind_ok_iff.mp hids
  cases pair with
  | none =>
    cases hids
    exact h
  | some pair =>
    obtain ⟨rfl, htruthy⟩ := Inbound.eq_of_rememberIdentifiers hpair
    cases hids
    exact isSome_setItem htruthy h

/-- Neither does a contact. -/
theorem Known.scanContact {ids ids' : Identifiers} {number phoneNumber : PyStr} {contact : Json}
    (h : Known ids number) (hids : scanContact phoneNumber ids contact = .ok ids') :
    Known ids' number := by
  obtain ⟨serviceId, -, hids⟩ := Envelope.bind_ok_iff.mp hids
  split at hids
  · exact h.remember hids
  · cases hids
    exact h

/-- The loop over the contacts takes no id away, also if it is left by an error. -/
theorem Known.scanContacts {number phoneNumber : PyStr} {contacts : List Json} :
    ∀ {ids : Identifiers}, Known ids number →
      Known (scanContacts phoneNumber contacts ids).2 number := by
  induction contacts with
  | nil => exact fun h => h
  | cons contact contacts ih =>
    intro ids h
    rw [SignalClient.scanContacts]
    split
    · next ids' hids => exact ih (h.scanContact hids)
    · exact h

/-- No step of the client takes an id away. -/
theorem Known.step {client client' : SignalClient.Client} {event : SignalClient.Event}
    {ret : Option Return} {number : PyStr} (h : Known client.ids number)
    (hstep : client.step event = some (client', ret)) : Known client'.ids number := by
  cases Recipients.step_cases hstep with
  | remembered hids => exact h.remember hids
  | @scanned chatId result hlisting =>
    cases result with
    | arr contacts => exact h.scanContacts
    | _ => exact h
  | _ => exact h

/-- An event of the process takes no id away. -/
theorem Known.stepped {number : PyStr} (h : Known s.client.ids number) {event : App.Event}
    (hstep : Stepped setup s event s') : Known s'.client.ids number := by
  cases hstep with
  | listener | tasks => exact h
  | remember hc hclient => exact h.step hclient
  | queued hasks hnew hclient | asked hmem hclient => exact h.step hclient
  | found hasks hnew hclient hreply | late hmem hclient hreply | listed hlisting hclient hreply =>
    rw [hreply.client_eq]
    exact h.step hclient

/-- A lookup of a known number does not wait. -/
theorem resolve_of_cached {client client' : SignalClient.Client} {number : PyStr} {serviceId : Json}
    (h : client.ids.cached number = some serviceId) :
    client.step (.resolve number) ≠ some (client', none) := by
  obtain ⟨final, hfinal, -⟩ := Recipients.isFinal_eq number
  simp only [SignalClient.Client.step, Identifiers.resolve, hfinal]
  cases final with
  | true => exact fun hstep => by cases hstep
  | false =>
    simp only [h, bind, Except.bind]
    exact fun hstep => by cases hstep

/-- Once the caches have an id for a number, whatever happens from then on, they have one, and a
lookup of the number that begins ends at once with it. The contacts are not asked. -/
theorem known_for_good {more : List App.Event} {number : PyStr} (hknown : Known s.client.ids number)
    (h : s.run setup more = some s') :
    ∃ serviceId, s'.client.ids.cached number = some serviceId ∧
      ∀ caller s'', s'.asks caller = some number → s'.step setup (.resolve caller) = some s'' →
        ∃ recipient, clientCalls s'' caller
            = clientCalls s' caller ++ [⟨.resolveRecipient number, .ok recipient⟩] ∧
          (recipient = serviceId ∨ recipient = .str number ∧ Recipients.KeepsChatId number) := by
  -- No step takes an entry of the cache away.
  have hknown' : Known s'.client.ids number :=
    Machine.run_induction (motive := fun _ s => Known s.client.ids number) hknown
      (fun _ _ _ _ h hstep => h.stepped (step_cases hstep)) h
  obtain ⟨serviceId, hcached⟩ := Option.isSome_iff_exists.mp hknown'
  refine ⟨serviceId, hcached, fun caller s'' hasks hstep => ?_⟩
  cases step_cases hstep with
  | @found _ chatId client ret _ hasks' hnew hclient hreply =>
    obtain rfl := Option.some.inj (hasks'.symm.trans hasks)
    have hcalls := hreply.clientCalls_self hasks
    cases Recipients.step_cases hclient with
    | kept hkeeps => exact ⟨_, hcalls, .inr ⟨rfl, hkeeps⟩⟩
    | hit hopen hhit => exact ⟨_, hcalls, .inl (Option.some.inj (hhit.symm.trans hcached))⟩
  | @queued _ chatId client hasks' hnew hclient =>
    obtain rfl := Option.some.inj (hasks'.symm.trans hasks)
    -- A number that is known does not queue for the lock.
    exact absurd hclient (resolve_of_cached hcached)

/-- A second reply for the number. -/
def secondReply : List App.Event :=
  [.tasks (.request 1 (CallbackServer.exampleRequest "+15550100" "18") 4)]

/-- The lookup of the second reply ends at once. -/
theorem known_for_good_secondReply : ∃ s s' s'',
    (System.start CallbackServer.dedupTtlMs 60000 0 0).run exampleSetup
      (lookupBegins ++ lookupEnds) = some s ∧ s.run exampleSetup secondReply = some s' ∧
    s'.step exampleSetup (.resolve (.task 1)) = some s'' ∧
    ∃ serviceId, s'.client.ids.cached (lit "+15550100") = some serviceId ∧
      ∃ recipient, clientCalls s'' (.task 1) = clientCalls s' (.task 1)
          ++ [⟨.resolveRecipient (lit "+15550100"), .ok recipient⟩] ∧
        (recipient = serviceId ∨ recipient = .str (lit "+15550100") ∧
          Recipients.KeepsChatId (lit "+15550100")) := by
  have hall : (((System.start CallbackServer.dedupTtlMs 60000 0 0).run exampleSetup
      (lookupBegins ++ lookupEnds)).any fun s => (s.client.ids.cached (lit "+15550100")).isSome &&
        (s.run exampleSetup secondReply).any fun s' =>
          s'.asks (.task 1) == some (lit "+15550100") &&
            (s'.step exampleSetup (.resolve (.task 1))).isSome) = true := by decide +kernel
  obtain ⟨s, hrun, hall⟩ := (Option.any_eq_true _ _).mp hall
  obtain ⟨hknown, hmore⟩ := Bool.and_eq_true_iff.mp hall
  obtain ⟨s', hmore, hlookup⟩ := (Option.any_eq_true _ _).mp hmore
  obtain ⟨hasks, hstep⟩ := Bool.and_eq_true_iff.mp hlookup
  obtain ⟨s'', hstep⟩ := Option.isSome_iff_exists.mp hstep
  obtain ⟨serviceId, hcached, hreturn⟩ := known_for_good hknown hmore
  exact ⟨s, s', s'', hrun, hmore, hstep, serviceId, hcached,
    hreturn (.task 1) s'' (beq_iff_eq.mp hasks) hstep⟩

/-! ### No lookup is stuck -/

/-- An event of the client, in which `listContacts` answers with `result`. -/
def IsLookupEvent (result : Json) : App.Event → Prop
  | .resolve _ | .enter _ _ => True
  | .contacts answer => answer = result
  | .listener _ | .tasks _ | .remember => False

/-- At most `n` events of the client bring the caller's lookup to its end. -/
def CanReturn (setup : Setup) (result : Json) (caller : Caller) (chatId : PyStr) (n : Nat)
    (s : System) : Prop :=
  ∃ more s', s.run setup more = some s' ∧ more.length ≤ n ∧ (∀ e ∈ more, IsLookupEvent result e) ∧
    ∃ recipient : Except PyError Json,
      clientCalls s' caller = clientCalls s caller ++ [⟨.resolveRecipient chatId, recipient⟩]

section
variable {result : Json} {caller : Caller} {chatId : PyStr} {n : Nat}

/-- More events leave more time. -/
theorem CanReturn.mono (h : CanReturn setup result caller chatId n s) {m : Nat} (hle : n ≤ m) :
    CanReturn setup result caller chatId m s := by
  obtain ⟨more, s', hrun, hlen, honly, hreturn⟩ := h
  exact ⟨more, s', hrun, hlen.trans hle, honly, hreturn⟩

/-- One event first. -/
theorem CanReturn.step (h : CanReturn setup result caller chatId n s') {e : App.Event}
    (hstep : s.step setup e = some s') (he : IsLookupEvent result e)
    (hsame : clientCalls s' caller = clientCalls s caller) :
    CanReturn setup result caller chatId (n + 1) s := by
  obtain ⟨more, s'', hrun, hlen, honly, recipient, hreturn⟩ := h
  refine ⟨e :: more, s'', Machine.run_cons.mpr ⟨s', hstep, hrun⟩, Nat.succ_le_succ hlen,
    List.forall_mem_cons.mpr ⟨he, honly⟩, recipient, ?_⟩
  rw [hreturn, hsame]

/-- The event that ends the lookup. -/
theorem canReturn_of_step {e : App.Event} (hstep : s.step setup e = some s')
    (he : IsLookupEvent result e) {recipient : Except PyError Json}
    (hreturn : clientCalls s' caller
      = clientCalls s caller ++ [⟨.resolveRecipient chatId, recipient⟩]) :
    CanReturn setup result caller chatId 1 s :=
  ⟨[e], s', Machine.run_cons.mpr ⟨s', hstep, rfl⟩, le_rfl,
    fun _ hmem => List.mem_singleton.mp hmem ▸ he, recipient, hreturn⟩

/-- The holder of the lock gets its contacts. -/
theorem Queued.exists_contacts (h : Queued s) (hlisting : s.listing = some caller)
    (hasks : s.asks caller = some chatId) (result : Json) :
    ∃ s', s.step setup (.contacts result) = some s' ∧ s'.listing = none ∧
      s'.waiting = s.waiting ∧ (∀ other, other ≠ caller → s'.asks other = s.asks other ∧
        clientCalls s' other = clientCalls s other) ∧
      ∃ recipient : Except PyError Json,
        clientCalls s' caller = clientCalls s caller ++ [⟨.resolveRecipient chatId, recipient⟩] := by
  obtain ⟨-, chatId', hlisted, -⟩ := h.holder caller hlisting
  obtain ⟨⟨client, ret⟩, hclient⟩ : ∃ out, s.client.step (.contacts result) = some out := by
    rw [SignalClient.Client.step, hlisted]
    exact ⟨_, rfl⟩
  cases ret with
  | none =>
    rw [SignalClient.Client.step, hlisted] at hclient
    cases hclient
  | some ret =>
    have hasks' : ({ s.touch (.contacts result) client with listing := none } : System).asks caller
        = some chatId := hasks
    obtain ⟨s', hreply⟩ := exists_reply hasks' ret.result
    have hreplied := replied_of_reply hreply
    refine ⟨s', ?_, hreplied.listing_eq, hreplied.waiting_eq, fun other hne =>
      ⟨hreplied.asks_eq hne, hreplied.clientCalls_eq hne⟩, ret.result,
      hreplied.clientCalls_self hasks'⟩
    simp only [System.step, hlisting, hclient, Option.bind_eq_bind, Option.bind_some]
    exact hreply

/-- The holder of the lock needs one event. -/
theorem Queued.canReturn_holder (h : Queued s) (hlisting : s.listing = some caller)
    (hasks : s.asks caller = some chatId) : CanReturn setup result caller chatId 1 s := by
  obtain ⟨s', hstep, -, -, -, recipient, hreturn⟩ := h.exists_contacts hlisting hasks result
  exact canReturn_of_step hstep rfl hreturn

/-- Whoever waits can take a free lock. -/
theorem Inv.canReturn_free (h : Inv setup ttl sweepInterval nowMs now events s)
    (hmem : (caller, chatId) ∈ s.waiting) (hfree : s.listing = none) :
    CanReturn setup result caller chatId 2 s := by
  have hasks : s.asks caller = some chatId := h.queued.waiting _ hmem
  have hwaits : chatId ∈ s.client.waiting :=
    h.queued.perm.mem_iff.mpr (List.mem_map_of_mem (f := Prod.snd) hmem)
  have hunlocked := h.queued.free hfree
  cases hcached : s.client.ids.cached chatId with
  | some serviceId =>
    -- The number was cached in the meantime.
    have hclient : s.client.step (.enter chatId)
        = some ({ s.client with waiting := s.client.waiting.erase chatId },
          some ⟨chatId, .ok serviceId⟩) := by
      simp only [SignalClient.Client.step, if_pos (And.intro hwaits hunlocked), hcached]
    obtain ⟨s', hreply⟩ := exists_reply (s := { s.touch (.enter chatId)
      { s.client with waiting := s.client.waiting.erase chatId } with
        waiting := s.waiting.erase (caller, chatId) }) hasks (.ok serviceId)
    have hstep : s.step setup (.enter caller chatId) = some s' := by
      simp only [System.step, if_pos hmem, hclient, Option.bind_eq_bind, Option.bind_some]
      exact hreply
    have hone : CanReturn setup result caller chatId 1 s :=
      canReturn_of_step hstep trivial ((replied_of_reply hreply).clientCalls_self hasks)
    exact hone.mono (by decide)
  | none =>
    have hclient : s.client.step (.enter chatId)
        = some ({ s.client with
          waiting := s.client.waiting.erase chatId, listing := some chatId }, none) := by
      simp only [SignalClient.Client.step, if_pos (And.intro hwaits hunlocked), hcached]
    have hstep : s.step setup (.enter caller chatId) = some { s.touch (.enter chatId)
        { s.client with waiting := s.client.waiting.erase chatId, listing := some chatId } with
          waiting := s.waiting.erase (caller, chatId), listing := some caller } := by
      simp only [System.step, if_pos hmem, hclient, Option.bind_eq_bind, Option.bind_some]
    exact ((inv_step h hstep).queued.canReturn_holder rfl hasks).step hstep trivial rfl

/-- Whoever waits can go on when the holder of the lock has gone on. -/
theorem Inv.canReturn_waiting (h : Inv setup ttl sweepInterval nowMs now events s)
    (hmem : (caller, chatId) ∈ s.waiting) : CanReturn setup result caller chatId 3 s := by
  cases hlisting : s.listing with
  | none => exact (h.canReturn_free hmem hlisting).mono (by decide)
  | some holder =>
    obtain ⟨hnot, chatId', -, hholder⟩ := h.queued.holder holder hlisting
    obtain ⟨s', hstep, hfree, hwaiting, hothers, -⟩ :=
      h.queued.exists_contacts hlisting hholder result
    have hne : caller ≠ holder := by
      rintro rfl
      exact hnot (List.mem_map_of_mem hmem)
    exact ((inv_step h hstep).canReturn_free (hwaiting ▸ hmem) hfree).step hstep rfl
      (hothers caller hne).2

/-- From every reachable state, whatever the daemon answers for the contacts, each lookup can be
brought to its end by at most four events of the client. -/
theorem lookup_proceeds
    (h : (System.start ttl sweepInterval nowMs now).run setup events = some s)
    (hasks : s.asks caller = some chatId) (result : Json) :
    CanReturn setup result caller chatId 4 s := by
  have hinv := inv_run h
  by_cases hwaits : caller ∈ s.waiting.map Prod.fst
  · obtain ⟨⟨caller', chatId'⟩, hmem, rfl⟩ := List.mem_map.mp hwaits
    obtain rfl := Option.some.inj ((hinv.queued.waiting _ hmem).symm.trans hasks)
    exact (hinv.canReturn_waiting hmem).mono (by decide)
  · by_cases hlisting : s.listing = some caller
    · exact (hinv.queued.canReturn_holder hlisting hasks).mono (by decide)
    · -- The lookup has not begun yet.
      obtain ⟨client, ret, hclient⟩ : ∃ client ret,
          s.client.step (.resolve chatId) = some (client, ret) := by
        rw [SignalClient.Client.step]
        split <;> exact ⟨_, _, rfl⟩
      have hnew : ¬ (caller ∈ s.waiting.map Prod.fst ∨ s.listing = some caller) :=
        not_or.mpr ⟨hwaits, hlisting⟩
      cases ret with
      | some ret =>
        obtain ⟨s', hreply⟩ :=
          exists_reply (s := s.touch (.resolve chatId) client) hasks ret.result
        have hstep : s.step setup (.resolve caller) = some s' := by
          simp only [System.step, hasks, if_neg hnew, hclient, Option.bind_eq_bind,
            Option.bind_some]
          exact hreply
        have hone : CanReturn setup result caller chatId 1 s :=
          canReturn_of_step hstep trivial ((replied_of_reply hreply).clientCalls_self hasks)
        exact hone.mono (by decide)
      | none =>
        have hstep : s.step setup (.resolve caller) = some { s.touch (.resolve chatId) client with
            waiting := s.waiting ++ [(caller, chatId)] } := by
          simp only [System.step, hasks, if_neg hnew, hclient, Option.bind_eq_bind,
            Option.bind_some]
          rfl
        exact ((inv_step hinv hstep).canReturn_waiting (by simp)).step hstep trivial rfl

end

/-- The first lookup of a process ends within four events. -/
theorem lookup_proceeds_contact : ∃ s,
    (System.start CallbackServer.dedupTtlMs 60000 0 0).run exampleSetup lookupBegins = some s ∧
      CanReturn exampleSetup .null (.task 0) (lit "+15550100") 4 s := by
  obtain ⟨s, hrun, hasks⟩ := Option.map_eq_some_iff.mp
    (show ((System.start CallbackServer.dedupTtlMs 60000 0 0).run exampleSetup lookupBegins).map
      (fun s => s.asks (.task 0)) = some (some (lit "+15550100")) by decide +kernel)
  exact ⟨s, hrun, lookup_proceeds hrun hasks .null⟩

end

end SignalGateway.Proofs.App
