import SignalGateway.Recipients
import SignalGateway.Proofs.Relay

/-!
# `SignalGateway.Proofs.Recipients`: replies are not sent to strangers

`Observed` says that a number and a service id were seen together, in an envelope or in a
contact record. `Consistent` is the invariant of the client: its cache holds such pairs only,
whatever calls are under way (`consistent_run`). So a call of `_resolve_recipient` ends with
its argument or with an id that was seen with exactly that number (`resolve_routes`).

`StepCase` lists the cases of a step with what each returns, and `step_cases` is the inversion of
`Client.step`. Most of the work is in the contacts: `mem_of_scanContacts` says that the scan stores
pairs of a record only, and `recordHas_of_extract` that the id it returns is one of them.

`exists_recipient` is the converse: when all fields of a record are strings or null, no lookup
raises.
-/

set_option autoImplicit false

namespace SignalGateway.Proofs.Recipients

open SignalGateway.Envelope SignalGateway.SignalClient
open SignalGateway.Proofs.Envelope SignalGateway.Proofs.Relay

/-! ### What is observed -/

/-- A contact record with a number and an id. -/
def RecordHas (contact number serviceId : Json) : Prop :=
  ∃ items, contact = .obj items ∧ Json.lookup items "number" = number ∧
    (Json.lookup items "uuid" = serviceId ∨ Json.lookup items "serviceId" = serviceId ∨
      ∃ profile, Json.lookup items "profile" = .obj profile ∧
        (Json.lookup profile "serviceId" = serviceId ∨ Json.lookup profile "uuid" = serviceId))

/-- An event that shows a number and an id together. -/
inductive Shown (number serviceId : Json) : Event → Prop where
  | envelope : Shown number serviceId (.remember number serviceId)
  | contact {contacts : List Json} {contact : Json} (mem : contact ∈ contacts)
      (has : RecordHas contact number serviceId) :
      Shown number serviceId (.contacts (.arr contacts))

/-- A number and an id were seen together. -/
def Observed (events : List Event) (number serviceId : Json) : Prop :=
  ∃ event ∈ events, Shown number serviceId event

/-- What was observed stays observed. -/
theorem Observed.append {events : List Event} {number serviceId : Json}
    (h : Observed events number serviceId) (more : List Event) :
    Observed (events ++ more) number serviceId := by
  obtain ⟨event, hevent, hshown⟩ := h
  exact ⟨event, List.mem_append_left _ hevent, hshown⟩

/-- What the last event shows is observed. -/
theorem observed_last {events : List Event} {event : Event} {number serviceId : Json}
    (h : Shown number serviceId event) : Observed (events ++ [event]) number serviceId :=
  ⟨event, List.mem_append_right _ List.mem_cons_self, h⟩

/-! ### The `dict` -/

/-- A value that has a hash is its own key. -/
theorem sameKey_self {x : Json} (h : x.hashable = true) : sameKey x x = true := by
  cases x with
  | null => rfl
  | bool b => cases b <;> rfl
  | int i => simp [sameKey, numeral]
  | str s => simp [sameKey]
  | float f => cases f <;> simp [sameKey, numeral]
  | arr items => cases h
  | obj items => cases h

/-- A string is the same key as itself only. -/
theorem eq_of_sameKey_str {x : Json} {s : PyStr} (h : sameKey x (.str s) = true) :
    x = .str s := by
  cases x with
  | str t => rw [beq_iff_eq.mp h]
  | float f => cases f <;> cases h
  | _ => cases h

/-- A key equal to a string is that string. -/
theorem eq_of_str_sameKey {x : Json} {s : PyStr} (h : sameKey (.str s) x = true) :
    x = .str s := by
  cases x with
  | str t => rw [beq_iff_eq.mp h]
  | _ => cases h

/-- An item that is there after an assignment was there before, or is the new one. -/
theorem mem_setItem {key value : Json} (hkey : key.hashable = true)
    {items : List (Json × Json)} {item : Json × Json} (h : item ∈ setItem key value items) :
    item ∈ items ∨ sameKey item.1 key = true ∧ item.2 = value := by
  induction items with
  | nil =>
    obtain rfl := List.mem_singleton.mp h
    exact .inr ⟨sameKey_self hkey, rfl⟩
  | cons first items ih =>
    rw [setItem] at h
    split at h
    · next hsame =>
      rcases List.mem_cons.mp h with rfl | hmem
      · exact .inr ⟨hsame, rfl⟩
      · exact .inl (List.mem_cons_of_mem _ hmem)
    · rcases List.mem_cons.mp h with rfl | hmem
      · exact .inl List.mem_cons_self
      · exact (ih hmem).imp_left (List.mem_cons_of_mem _)

/-- What is found is stored under an equal key. -/
theorem mem_of_getItem {key value : Json} {items : List (Json × Json)}
    (h : getItem key items = some value) : ∃ item ∈ items, sameKey item.1 key = true ∧
      item.2 = value := by
  obtain ⟨item, hfind, rfl⟩ := Option.map_eq_some_iff.mp h
  have hsame := List.find?_some hfind
  exact ⟨item, List.mem_of_find?_eq_some hfind, hsame, rfl⟩

/-! ### The writes to the cache -/

/-- What `remember_identifiers` adds to the cache. -/
theorem mem_of_remember {ids ids' : Identifiers} {number serviceId : Json}
    (h : ids.remember number serviceId = .ok ids') :
    ∀ item ∈ ids'.uuidByNumber, item ∈ ids.uuidByNumber ∨
      sameKey item.1 number = true ∧ item.2 = serviceId ∧
        isSignalServiceId serviceId = .ok true := by
  obtain ⟨pair, hpair, h⟩ := bind_ok_iff.mp h
  unfold rememberIdentifiers at hpair
  intro item hitem
  -- Nothing is cached unless the number and the id are there and the id is a service id.
  split at hpair
  · cases hpair
    cases h
    exact .inl hitem
  · split at hpair
    · cases hpair
      cases h
      exact .inl hitem
    · obtain ⟨ok, hok, hpair⟩ := bind_ok_iff.mp hpair
      cases ok with
      | false =>
        cases hpair
        cases h
        exact .inl hitem
      | true =>
        cases hhash : number.hashable with
        | false =>
          rw [hhash] at hpair
          cases hpair
        | true =>
          rw [hhash] at hpair
          cases hpair
          cases h
          exact (mem_setItem hhash hitem).imp_right fun h => ⟨h.1, h.2, hok⟩

/-- The id of a record stands in the record. -/
theorem recordHas_listedId (items : List (PyStr × Json)) :
    RecordHas (.obj items) (Json.lookup items "number") (listedId items) := by
  -- `x or y` is one of the two.
  have hor : ∀ x y : Json, x = x.or y ∨ y = x.or y := by
    intro x y
    unfold Json.or
    split
    · exact .inl rfl
    · exact .inr rfl
  have hlisted := hor (Json.lookup items "uuid") (Json.lookup items "serviceId")
  refine ⟨items, rfl, rfl, ?_⟩
  rw [listedId]
  split
  · exact hlisted.imp_right .inl
  · split
    · next profile hprofile =>
      exact .inr (.inr ⟨profile, hprofile, hor _ _⟩)
    · exact hlisted.imp_right .inl

/-- An id that is extracted stands in the record, beside its number. -/
theorem recordHas_of_extract {contact serviceId : Json} {phoneNumber : PyStr}
    (h : extractContactUuid contact phoneNumber = .ok serviceId)
    (htruthy : serviceId.truthy = true) :
    RecordHas contact (contactNumber contact) serviceId := by
  cases contact with
  | obj items =>
    -- All branches return the listed id of the record or none.
    have hcases : serviceId = listedId items ∨ serviceId = .null := by
      simp only [extractContactUuid] at h
      split at h
      · obtain ⟨ok, -, h⟩ := bind_ok_iff.mp h
        split at h
        · split at h
          · exact .inl (Except.ok.inj h).symm
          · exact .inr (Except.ok.inj h).symm
        · exact .inr (Except.ok.inj h).symm
      · exact .inr (Except.ok.inj h).symm
    rcases hcases with rfl | rfl
    · exact recordHas_listedId items
    · cases htruthy
  | _ =>
    cases h
    cases htruthy

/-- A contact adds a pair of its own at most. -/
theorem mem_of_scanContact {phoneNumber : PyStr} {ids ids' : Identifiers} {contact : Json}
    (h : scanContact phoneNumber ids contact = .ok ids') :
    ∀ item ∈ ids'.uuidByNumber, item ∈ ids.uuidByNumber ∨
      isSignalServiceId item.2 = .ok true ∧ ∃ number, sameKey item.1 number = true ∧
        RecordHas contact number item.2 := by
  obtain ⟨serviceId, hextract, h⟩ := bind_ok_iff.mp h
  intro item hitem
  split at h
  · next hboth =>
    rcases mem_of_remember h item hitem with hmem | ⟨hsame, rfl, hid⟩
    · exact .inl hmem
    · have htruthy := (Bool.and_eq_true_iff.mp hboth).2
      exact .inr ⟨hid, _, hsame, recordHas_of_extract hextract htruthy⟩
  · cases h
    exact .inl hitem

/-- The loop over the contacts adds pairs of theirs, also if it is left by an error. -/
theorem mem_of_scanContacts {phoneNumber : PyStr} {contacts : List Json} :
    ∀ {ids : Identifiers}, ∀ item ∈ (scanContacts phoneNumber contacts ids).2.uuidByNumber,
      item ∈ ids.uuidByNumber ∨
        isSignalServiceId item.2 = .ok true ∧ ∃ number, sameKey item.1 number = true ∧
          ∃ contact ∈ contacts, RecordHas contact number item.2 := by
  induction contacts with
  | nil => exact fun item hitem => .inl hitem
  | cons contact contacts ih =>
    intro ids item hitem
    rw [scanContacts] at hitem
    split at hitem
    · next ids' hscan =>
      rcases ih item hitem with hmem | ⟨hid, number, hsame, found, hfound, hhas⟩
      · rcases mem_of_scanContact hscan item hmem with hmem | ⟨hid, number, hsame, hhas⟩
        · exact .inl hmem
        · exact .inr ⟨hid, number, hsame, contact, List.mem_cons_self, hhas⟩
      · exact .inr ⟨hid, number, hsame, found, List.mem_cons_of_mem _ hfound, hhas⟩
    · exact .inl hitem

/-! ### The invariant -/

/-- What is cached was observed, up to numbers that are the same key. -/
def CacheObserved (events : List Event) (ids : Identifiers) : Prop :=
  ∀ item ∈ ids.uuidByNumber, isSignalServiceId item.2 = .ok true ∧
    ∃ number, sameKey item.1 number = true ∧ Observed events number item.2

/-- A cache that was observed stays so. -/
theorem CacheObserved.append {events : List Event} {ids : Identifiers}
    (h : CacheObserved events ids) (more : List Event) : CacheObserved (events ++ more) ids := by
  intro item hitem
  obtain ⟨hid, number, hsame, hobserved⟩ := h item hitem
  exact ⟨hid, number, hsame, hobserved.append more⟩

/-- A cached id was seen with exactly that number. -/
theorem CacheObserved.getItem {events : List Event} {ids : Identifiers}
    (h : CacheObserved events ids) {chatId : PyStr} {serviceId : Json}
    (hget : getItem (.str chatId) ids.uuidByNumber = some serviceId) :
    isSignalServiceId serviceId = .ok true ∧ Observed events (.str chatId) serviceId := by
  obtain ⟨item, hitem, hkey, rfl⟩ := mem_of_getItem hget
  obtain ⟨hid, number, hsame, hobserved⟩ := h item hitem
  rw [eq_of_sameKey_str hkey] at hsame
  rw [eq_of_str_sameKey hsame] at hobserved
  exact ⟨hid, hobserved⟩

/-- The chat ids for which `_resolve_recipient` does nothing. -/
def KeepsChatId (chatId : PyStr) : Prop :=
  chatId = [] ∨ groupPrefix <+: chatId ∨ isSignalServiceId (.str chatId) = .ok true ∨
    looksLikeE164Number chatId = false

/-- The chat ids that are kept are recognised without an error. -/
theorem isFinal_eq (chatId : PyStr) :
    ∃ final, isFinal chatId = .ok final ∧ (final = true ↔ KeepsChatId chatId) := by
  obtain ⟨isId, hid⟩ : ∃ isId, isSignalServiceId (.str chatId) = .ok isId := ⟨_, rfl⟩
  have hfinal : isFinal chatId = .ok (chatId.isEmpty || groupPrefix.isPrefixOf chatId || isId ||
      !looksLikeE164Number chatId) := by
    rw [isFinal, hid]
    cases chatId.isEmpty <;> cases groupPrefix.isPrefixOf chatId <;> cases isId <;> rfl
  refine ⟨_, hfinal, ?_⟩
  rw [KeepsChatId, hid]
  simp only [Bool.or_eq_true, List.isEmpty_iff, List.isPrefixOf_iff_prefix, Bool.not_eq_true',
    or_assoc, Except.ok.injEq]

/-- The invariant of the client. -/
structure Consistent (events : List Event) (client : Client) : Prop where
  observed : CacheObserved events client.ids
  waiting : ∀ chatId ∈ client.waiting, ¬ KeepsChatId chatId
  listing : ∀ chatId ∈ client.listing, ¬ KeepsChatId chatId

/-- The call goes to its own argument, or to an id that was seen with that number. -/
structure WellRouted (events : List Event) (ret : Return) : Prop where
  recipient : ∀ recipient, ret.result = .ok recipient → recipient = .str ret.chatId ∨
    isSignalServiceId recipient = .ok true ∧ Observed events (.str ret.chatId) recipient
  unchanged : KeepsChatId ret.chatId → ret.result = .ok (.str ret.chatId)

/-- A message to the chat id itself is well routed. -/
theorem wellRouted_self {events : List Event} {chatId : PyStr} :
    WellRouted events ⟨chatId, .ok (.str chatId)⟩ where
  recipient _ h := .inl (Except.ok.inj h).symm
  unchanged _ := rfl

/-- A call that looks a number up is routed well if the cache is. -/
theorem wellRouted_of_lookup {events : List Event} {ids : Identifiers}
    (h : CacheObserved events ids) {chatId : PyStr} (hopen : ¬ KeepsChatId chatId)
    {result : Except PyError Json} (hresult : ∀ recipient, result = .ok recipient →
      recipient = .str chatId ∨ getItem (.str chatId) ids.uuidByNumber = some recipient) :
    WellRouted events ⟨chatId, result⟩ where
  recipient recipient hok := (hresult recipient hok).imp_right h.getItem
  unchanged hkeeps := absurd hkeeps hopen

/-- What is cached is stored. -/
theorem getItem_of_cached {ids : Identifiers} {chatId : PyStr} {serviceId : Json}
    (h : ids.cached chatId = some serviceId) :
    getItem (.str chatId) ids.uuidByNumber = some serviceId :=
  (Option.filter_eq_some_iff.mp h).1

/-- A call that finds its number in the cache. -/
theorem wellRouted_of_cached {events : List Event} {ids : Identifiers}
    (h : CacheObserved events ids) {chatId : PyStr} {serviceId : Json}
    (hopen : ¬ KeepsChatId chatId) (hcached : ids.cached chatId = some serviceId) :
    WellRouted events ⟨chatId, .ok serviceId⟩ := by
  refine wellRouted_of_lookup h hopen fun recipient hok => .inr ?_
  rw [← Except.ok.inj hok]
  exact getItem_of_cached hcached

/-- After the scan the cache is asked once more. -/
theorem getItem_of_resolveFrom {ids : Identifiers} {chatId : PyStr} {result recipient : Json}
    (h : (ids.resolveFrom chatId result).1 = .ok recipient) :
    recipient = .str chatId ∨
      getItem (.str chatId) (ids.resolveFrom chatId result).2.uuidByNumber = some recipient := by
  simp only [Identifiers.resolveFrom] at h ⊢
  generalize ids.scan chatId result = scan at h ⊢
  obtain ⟨outcome, ids'⟩ := scan
  cases outcome with
  | error e => cases h
  | ok u =>
    obtain rfl := Except.ok.inj h
    show Option.getD (getItem (.str chatId) ids'.uuidByNumber) _ = _ ∨
      getItem (.str chatId) ids'.uuidByNumber = _
    cases hget : getItem (.str chatId) ids'.uuidByNumber with
    | none => exact .inl rfl
    | some serviceId => exact .inr rfl

/-! ### One step -/

/-- What a step of the client can do. -/
inductive StepCase (client : Client) : Event → Client → Option Return → Prop where
  /-- The pair of an envelope is cached, or there is none. -/
  | remembered {number serviceId : Json} {ids : Identifiers}
      (hids : client.ids.remember number serviceId = .ok ids) :
      StepCase client (.remember number serviceId) { client with ids } none
  /-- `remember_identifiers` raises. -/
  | refused {number serviceId : Json} :
      StepCase client (.remember number serviceId) client none
  /-- The chat id is returned as it is. -/
  | kept {chatId : PyStr} (hkeeps : KeepsChatId chatId) :
      StepCase client (.resolve chatId) client (some ⟨chatId, .ok (.str chatId)⟩)
  /-- The number is cached. -/
  | hit {chatId : PyStr} {serviceId : Json} (hopen : ¬ KeepsChatId chatId)
      (hcached : client.ids.cached chatId = some serviceId) :
      StepCase client (.resolve chatId) client (some ⟨chatId, .ok serviceId⟩)
  /-- The call waits for the lock. -/
  | queued {chatId : PyStr} (hopen : ¬ KeepsChatId chatId) :
      StepCase client (.resolve chatId) { client with waiting := client.waiting ++ [chatId] } none
  /-- The number was cached while the call was waiting. -/
  | late {chatId : PyStr} {serviceId : Json} (hmem : chatId ∈ client.waiting)
      (hcached : client.ids.cached chatId = some serviceId) :
      StepCase client (.enter chatId) { client with waiting := client.waiting.erase chatId }
        (some ⟨chatId, .ok serviceId⟩)
  /-- The call asks for the contacts. -/
  | asked {chatId : PyStr} (hmem : chatId ∈ client.waiting) :
      StepCase client (.enter chatId)
        { client with waiting := client.waiting.erase chatId, listing := some chatId } none
  /-- The contacts are scanned. -/
  | scanned {chatId : PyStr} {result : Json} (hlisting : client.listing = some chatId) :
      StepCase client (.contacts result)
        { client with ids := (client.ids.resolveFrom chatId result).2, listing := none }
        (some ⟨chatId, (client.ids.resolveFrom chatId result).1⟩)

/-- What a step of the client can do. -/
theorem step_cases {client client' : Client} {event : Event} {ret : Option Return}
    (hstep : client.step event = some (client', ret)) : StepCase client event client' ret := by
  cases event with
  | remember number serviceId =>
    simp only [Client.step] at hstep
    split at hstep
    · next ids hids =>
      cases hstep
      exact .remembered hids
    · cases hstep
      exact .refused
  | resolve chatId =>
    obtain ⟨final, hfinal, hkeeps⟩ := isFinal_eq chatId
    simp only [Client.step, Identifiers.resolve, hfinal] at hstep
    -- A final chat id needs neither the cache nor the lock.
    cases final with
    | true =>
      cases hstep
      exact .kept (hkeeps.mp rfl)
    | false =>
      have hopen : ¬ KeepsChatId chatId := fun hk => Bool.false_ne_true (hkeeps.mpr hk)
      cases hcached : client.ids.cached chatId with
      | some serviceId =>
        simp only [hcached, bind, Except.bind] at hstep
        cases hstep
        exact .hit hopen hcached
      | none =>
        simp only [hcached, bind, Except.bind] at hstep
        cases hstep
        exact .queued hopen
  | enter chatId =>
    simp only [Client.step] at hstep
    split at hstep
    · next hmem =>
      split at hstep
      · next serviceId hcached =>
        cases hstep
        exact .late hmem.1 hcached
      · cases hstep
        exact .asked hmem.1
    · cases hstep
  | contacts result =>
    simp only [Client.step] at hstep
    split at hstep
    · cases hstep
    · next chatId hlisting =>
      cases hstep
      exact .scanned hlisting

section
variable {events : List Event} {client : Client} (h : Consistent events client)
include h

/-- A pair that is remembered keeps the caches consistent. -/
theorem consistent_remember (number serviceId : Json) {ids : Identifiers}
    (hids : client.ids.remember number serviceId = .ok ids) :
    Consistent (events ++ [.remember number serviceId]) { client with ids } where
  observed := by
    intro item hitem
    rcases mem_of_remember hids item hitem with hmem | ⟨hsame, rfl, hid⟩
    · exact h.observed.append _ item hmem
    · exact ⟨hid, number, hsame, observed_last .envelope⟩
  waiting := h.waiting
  listing := h.listing

/-- So do the contacts. -/
theorem consistent_contacts (chatId : PyStr) (result : Json) :
    CacheObserved (events ++ [.contacts result])
      (client.ids.resolveFrom chatId result).2 := by
  intro item hitem
  cases result with
  | arr contacts =>
    rcases mem_of_scanContacts item hitem with hmem | ⟨hid, number, hsame, contact, hmem, hhas⟩
    · exact h.observed.append _ item hmem
    · exact ⟨hid, number, hsame, observed_last (.contact hmem hhas)⟩
  | _ => exact h.observed.append _ item hitem

/-- A step keeps the invariant, and a call that it ends is routed well. -/
theorem consistent_step {event : Event} {client' : Client} {ret : Option Return}
    (hstep : client.step event = some (client', ret)) :
    Consistent (events ++ [event]) client' ∧
      ∀ r ∈ ret, WellRouted (events ++ [event]) r := by
  have hsame : ∀ more, Consistent (events ++ more) client := fun more =>
    ⟨h.observed.append more, h.waiting, h.listing⟩
  cases step_cases hstep with
  | remembered hids => exact ⟨consistent_remember h _ _ hids, by simp⟩
  | refused => exact ⟨hsame _, by simp⟩
  | kept hkeeps =>
    refine ⟨hsame _, fun r hr => ?_⟩
    obtain rfl := Option.some.inj hr
    exact wellRouted_self
  | hit hopen hcached =>
    refine ⟨hsame _, fun r hr => ?_⟩
    obtain rfl := Option.some.inj hr
    exact wellRouted_of_cached (hsame _).observed hopen hcached
  | queued hopen =>
    -- Only a call that has to look its number up waits for the lock.
    refine ⟨⟨(hsame _).observed, fun other hother => ?_, h.listing⟩, by simp⟩
    rcases List.mem_append.mp hother with hother | hother
    · exact h.waiting other hother
    · rw [List.mem_singleton.mp hother]
      exact hopen
  | late hmem hcached =>
    refine ⟨⟨(hsame _).observed, fun other hother => ?_, h.listing⟩, fun r hr => ?_⟩
    · exact h.waiting other (List.mem_of_mem_erase hother)
    · obtain rfl := Option.some.inj hr
      exact wellRouted_of_cached (hsame _).observed (h.waiting _ hmem) hcached
  | asked hmem =>
    refine ⟨⟨(hsame _).observed, fun other hother => ?_, fun other hother => ?_⟩, by simp⟩
    · exact h.waiting other (List.mem_of_mem_erase hother)
    · rw [← Option.some.inj hother]
      exact h.waiting _ hmem
  | @scanned chatId result hlisting =>
    have hcache := consistent_contacts h chatId result
    refine ⟨⟨hcache, h.waiting, by simp⟩, fun r hr => ?_⟩
    obtain rfl := Option.some.inj hr
    exact wellRouted_of_lookup hcache (h.listing _ hlisting) fun recipient =>
      getItem_of_resolveFrom

end

/-! ### Runs -/

/-- Whatever happens in whatever order, the cache holds observed pairs. -/
theorem consistent_run : ∀ {more events : List Event} {client client' : Client},
    Consistent events client → client.run more = some client' →
      Consistent (events ++ more) client' := by
  intro more
  induction more with
  | nil =>
    intro events client client' h hrun
    cases hrun
    rwa [List.append_nil]
  | cons event more ih =>
    intro events client client' h hrun
    obtain ⟨⟨next, ret⟩, hstep, hrest⟩ := Option.bind_eq_some_iff.mp hrun
    have hnext := (consistent_step h hstep).1
    have hend := ih hnext hrest
    rwa [List.append_assoc] at hend

/-- Empty caches are consistent. -/
theorem consistent_start : Consistent [] {} where
  observed _ hitem := absurd hitem List.not_mem_nil
  waiting _ hmem := absurd hmem List.not_mem_nil
  listing _ hmem := by cases hmem

/-! ### Contacts of the declared types -/

/-- The identifiers of a contact record are strings. -/
structure StringContact (items : List (PyStr × Json)) : Prop where
  fields : ∀ key ∈ ["number", "recipient", "uuid", "serviceId"],
    IsStrOrNone (Json.lookup items key)
  profile : ∀ profile, Json.lookup items "profile" = .obj profile →
    ∀ key ∈ ["serviceId", "uuid"], IsStrOrNone (Json.lookup profile key)

/-- All records of the answer have string identifiers. -/
def StringContacts (result : Json) : Prop :=
  ∀ contacts, result = .arr contacts → ∀ items, .obj items ∈ contacts → StringContact items

/-- The first of two fields that is set. -/
theorem IsStrOrNone.or {x y : Json} (hx : IsStrOrNone x) (hy : IsStrOrNone y) :
    IsStrOrNone (x.or y) := by
  unfold Json.or
  split
  · exact hx
  · exact hy

/-- The id of a contact with text fields is text, or missing. -/
theorem isStrOrNone_listedId {items : List (PyStr × Json)} (h : StringContact items) :
    IsStrOrNone (listedId items) := by
  have hlisted := IsStrOrNone.or (h.fields "uuid" (by simp)) (h.fields "serviceId" (by simp))
  rw [listedId]
  split
  · exact hlisted
  · split
    · next profile hprofile =>
      exact IsStrOrNone.or (h.profile profile hprofile _ (by simp))
        (h.profile profile hprofile _ (by simp))
    · exact hlisted

/-- A text field is looked at without an error. -/
theorem isSignalServiceId_ok {x : Json} (h : IsStrOrNone x) :
    ∃ ok, isSignalServiceId x = .ok ok := by
  rcases h with rfl | ⟨s, rfl⟩
  · exact ⟨false, rfl⟩
  · exact ⟨_, rfl⟩

/-- Text fields are remembered without an error. -/
theorem remember_ok (ids : Identifiers) {number serviceId : Json} (hnumber : IsStrOrNone number)
    (hid : IsStrOrNone serviceId) : ∃ ids', ids.remember number serviceId = .ok ids' := by
  obtain ⟨ok, hok⟩ := isSignalServiceId_ok hid
  have hhash : number.hashable = true := by
    rcases hnumber with rfl | ⟨s, rfl⟩ <;> rfl
  have hpair : ∃ pair, rememberIdentifiers number serviceId = .ok pair := by
    rw [rememberIdentifiers, hok, hhash]
    cases number.truthy <;> cases serviceId.truthy <;> cases ok <;> exact ⟨_, rfl⟩
  refine exists_ok_bind hpair fun pair => ?_
  cases pair <;> exact ⟨_, rfl⟩

/-- A contact with text fields is read without an error. -/
theorem extractContactUuid_ok (phoneNumber : PyStr) {contact : Json}
    (h : ∀ items, contact = .obj items → StringContact items) :
    ∃ serviceId, extractContactUuid contact phoneNumber = .ok serviceId ∧
      IsStrOrNone serviceId := by
  cases contact with
  | obj items =>
    have hlisted := isStrOrNone_listedId (h items rfl)
    obtain ⟨ok, hok⟩ := isSignalServiceId_ok hlisted
    simp only [extractContactUuid, hok, bind, Except.bind]
    split
    · split
      · split
        · exact ⟨_, rfl, hlisted⟩
        · exact ⟨_, rfl, .inl rfl⟩
      · exact ⟨_, rfl, .inl rfl⟩
    · exact ⟨_, rfl, .inl rfl⟩
  | _ => exact ⟨.null, rfl, .inl rfl⟩

/-- So it is when it is scanned. -/
theorem scanContact_ok (phoneNumber : PyStr) (ids : Identifiers) {contact : Json}
    (h : ∀ items, contact = .obj items → StringContact items) :
    ∃ ids', scanContact phoneNumber ids contact = .ok ids' := by
  obtain ⟨serviceId, hextract, hid⟩ := extractContactUuid_ok phoneNumber h
  have hnumber : IsStrOrNone (contactNumber contact) := by
    cases contact with
    | obj items => exact (h items rfl).fields "number" (by simp)
    | _ => exact .inl rfl
  obtain ⟨ids', hremember⟩ := remember_ok ids hnumber hid
  simp only [scanContact, hextract, hremember, bind, Except.bind]
  split
  · exact ⟨_, rfl⟩
  · exact ⟨_, rfl⟩

/-- So are all contacts. -/
theorem scanContacts_ok (phoneNumber : PyStr) {contacts : List Json} :
    ∀ (ids : Identifiers), (∀ items, .obj items ∈ contacts → StringContact items) →
      (scanContacts phoneNumber contacts ids).1 = .ok () := by
  induction contacts with
  | nil => exact fun _ _ => rfl
  | cons contact contacts ih =>
    intro ids h
    have hcontact : ∀ items, contact = .obj items → StringContact items :=
      fun items hitems => h items (hitems ▸ List.mem_cons_self)
    obtain ⟨ids', hscan⟩ := scanContact_ok phoneNumber ids hcontact
    rw [scanContacts, hscan]
    exact ih ids' fun items hmem => h items (List.mem_cons_of_mem _ hmem)

/-- A call raises only if a contact record has an identifier that is no string. -/
theorem exists_recipient {client client' : Client} {event : Event} {ret : Return}
    (hstep : client.step event = some (client', some ret))
    (hstrings : ∀ result, event = .contacts result → StringContacts result) :
    ∃ recipient, ret.result = .ok recipient := by
  cases step_cases hstep with
  | kept hkeeps => exact ⟨_, rfl⟩
  | hit hopen hcached => exact ⟨_, rfl⟩
  | late hmem hcached => exact ⟨_, rfl⟩
  | @scanned chatId result hlisting =>
    have hscan : (client.ids.scan chatId result).1 = .ok () := by
      cases result with
      | arr contacts => exact scanContacts_ok chatId client.ids (hstrings _ rfl contacts rfl)
      | _ => rfl
    simp only [Identifiers.resolveFrom, hscan]
    exact ⟨_, rfl⟩

/-! ### No reply goes astray -/

/-- In every run all cached pairs were seen together, and every call that ends goes to its
argument or to an id that was seen with that number. -/
theorem resolve_routes {events : List Event} {client : Client}
    (h : ({} : Client).run events = some client) :
    CacheObserved events client.ids ∧
      (∀ event client' ret, client.step event = some (client', some ret) →
        WellRouted (events ++ [event]) ret ∧
          ((∀ result, event = .contacts result → StringContacts result) →
            ∃ recipient, ret.result = .ok recipient)) ∧
      ∀ chatId, KeepsChatId chatId →
        client.step (.resolve chatId) = some (client, some ⟨chatId, .ok (.str chatId)⟩) := by
  have hconsistent := consistent_run consistent_start h
  refine ⟨hconsistent.observed, fun event client' ret hstep => ⟨?_, exists_recipient hstep⟩,
    fun chatId hkeeps => ?_⟩
  · exact (consistent_step hconsistent hstep).2 ret rfl
  · obtain ⟨final, hfinal, hiff⟩ := isFinal_eq chatId
    obtain rfl := hiff.mpr hkeeps
    simp only [Client.step, Identifiers.resolve, hfinal]
    rfl

/-- A contact that was renumbered. -/
def movedContact : Json :=
  .obj [(lit "number", .str (lit "+15550199")), (lit "recipient", .str (lit "+15550100")),
    (lit "uuid", .str (lit "PNI:4c1f"))]

/-- A call that finds its number as the recipient of a contact with another number. -/
theorem resolve_routes_moved :
    ∃ client, ({} : Client).run [.resolve (lit "+15550100"), .enter (lit "+15550100")]
        = some client ∧
      ∀ event client' ret, client.step event = some (client', some ret) →
        WellRouted [.resolve (lit "+15550100"), .enter (lit "+15550100"), event] ret := by
  have hrun : ∃ client, ({} : Client).run
      [.resolve (lit "+15550100"), .enter (lit "+15550100")] = some client := ⟨_, rfl⟩
  obtain ⟨client, hrun⟩ := hrun
  exact ⟨client, hrun, fun event client' ret hstep =>
    ((resolve_routes hrun).2.1 event client' ret hstep).1⟩

example : (({ listing := some (lit "+15550100") } : Client).step (.contacts
    (.arr [movedContact]))).map (fun out => out.1.ids.uuidByNumber.length) = some 1 := by
  decide +kernel

end SignalGateway.Proofs.Recipients
