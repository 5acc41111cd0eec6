import SignalGateway.SignalClient

/-!
# `SignalGateway.Recipients`: from a number to a service id

The model of the identifier caches of the signal client and of `_resolve_recipient`, which
fills them from `listContacts`. A `_resolve_recipient` gives up control at two places: while it
waits for the lock of the caches, and while it waits for the contacts. Between these places
nothing else runs, so each part is one step of a `Client`.

The events are a call of `remember_identifiers`, a call of `_resolve_recipient`, a waiting call that
gets the lock, and the answer of `listContacts`. `Client.step` is what each of them does, and a
`Return` is the end of a call with its result.

A number in an envelope or a contact record can be any JSON value. So the caches are lists of items
with keys of any type, which are compared as a `dict` does (`sameKey`).
-/

set_option autoImplicit false

namespace SignalGateway.SignalClient

open Envelope

/-! ### A `dict` with keys of any type -/

/-- The value of a number. -/
def numeral : Json → Option ℚ
  | .bool b => some (if b then 1 else 0)
  | .int i => some i
  | .float (.finite q _) => some q
  | _ => none

/-- Whether two keys are the same. The keys `True`, `1` and `1.0` are, and `json.loads` always
returns the same `nan`. -/
def sameKey : Json → Json → Bool
  | .str s, .str t => s == t
  | .null, .null => true
  | .float .inf, .float .inf => true
  | .float .negInf, .float .negInf => true
  | .float .nan, .float .nan => true
  | x, y =>
      match numeral x, numeral y with
      | some p, some q => p == q
      | _, _ => false

/-- `d[key] = value` -/
def setItem (key value : Json) : List (Json × Json) → List (Json × Json)
  | [] => [(key, value)]
  | item :: items =>
      if sameKey item.1 key then (item.1, value) :: items else item :: setItem key value items

/-- `d.get(key)` -/
def getItem (key : Json) (items : List (Json × Json)) : Option Json :=
  (items.find? fun item => sameKey item.1 key).map Prod.snd

/-! ### The caches -/

/-- `_looks_like_e164_number` -/
def looksLikeE164Number (value : PyStr) : Bool :=
  if value.isEmpty || !(lit "+").isPrefixOf value then false
  else
    let digits := value.drop 1
    isDigits digits && 7 ≤ digits.length && digits.length ≤ 15

/-- `_uuid_by_number` and `_number_by_uuid` -/
structure Identifiers where
  uuidByNumber : List (Json × Json) := []
  numberByUuid : List (Json × Json) := []

/-- `remember_identifiers` -/
def Identifiers.remember (ids : Identifiers) (number serviceId : Json) :
    Except PyError Identifiers := do
  match ← rememberIdentifiers number serviceId with
  | none => return ids
  -- Both directions are written.
  | some (number, serviceId) =>
      return ⟨setItem number serviceId ids.uuidByNumber, setItem serviceId number ids.numberByUuid⟩

/-- The id in a contact record, or in its profile. -/
def listedId (items : List (PyStr × Json)) : Json :=
  let serviceId := (Json.lookup items "uuid").or (Json.lookup items "serviceId")
  if serviceId.truthy then serviceId
  else
    match Json.lookup items "profile" with
    | .obj profile => (Json.lookup profile "serviceId").or (Json.lookup profile "uuid")
    | _ => serviceId

/-- `_extract_contact_uuid` -/
def extractContactUuid (contact : Json) (phoneNumber : PyStr) : Except PyError Json := do
  match contact with
  | .obj items =>
      let number := Json.lookup items "number"
      let recipient := Json.lookup items "recipient"
      let serviceId := listedId items
      if serviceId.truthy then
        if ← isSignalServiceId serviceId then
          if number.eqStr phoneNumber || recipient.eqStr phoneNumber then return serviceId
      return .null
  | _ => return .null

/-- `contact.get("number") if isinstance(contact, dict) else None` -/
def contactNumber : Json → Json
  | .obj items => Json.lookup items "number"
  | _ => .null

/-- The loop body over the contacts. -/
def scanContact (phoneNumber : PyStr) (ids : Identifiers) (contact : Json) :
    Except PyError Identifiers := do
  let serviceId ← extractContactUuid contact phoneNumber
  if (contactNumber contact).truthy && serviceId.truthy then
    ids.remember (contactNumber contact) serviceId
  else return ids

/-- The loop over the contacts. An error leaves the loop, and what was cached stays. -/
def scanContacts (phoneNumber : PyStr) :
    List Json → Identifiers → Except PyError Unit × Identifiers
  | [], ids => (.ok (), ids)
  | contact :: contacts, ids =>
      match scanContact phoneNumber ids contact with
      | .ok ids => scanContacts phoneNumber contacts ids
      | .error e => (.error e, ids)

/-! ### The parts of `_resolve_recipient` -/

/-- The cached id, if there is one. -/
def Identifiers.cached (ids : Identifiers) (chatId : PyStr) : Option Json :=
  (getItem (.str chatId) ids.uuidByNumber).filter Json.truthy

/-- The chat ids that `_resolve_recipient` returns as they are. -/
def isFinal (chatId : PyStr) : Except PyError Bool := do
  if chatId.isEmpty || groupPrefix.isPrefixOf chatId then return true
  if ← isSignalServiceId (.str chatId) then return true
  return !looksLikeE164Number chatId

/-- Up to the lock: the result, if there is one without it. -/
def Identifiers.resolve (ids : Identifiers) (chatId : PyStr) : Except PyError (Option Json) := do
  if ← isFinal chatId then return some (.str chatId)
  return ids.cached chatId

/-- The scan of what `listContacts` answers, if that is a list. -/
def Identifiers.scan (ids : Identifiers) (chatId : PyStr) :
    Json → Except PyError Unit × Identifiers
  | .arr contacts => scanContacts chatId contacts ids
  | _ => (.ok (), ids)

/-- From the answer of `listContacts` to the result. -/
def Identifiers.resolveFrom (ids : Identifiers) (chatId : PyStr) (contacts : Json) :
    Except PyError Json × Identifiers :=
  let scan := ids.scan chatId contacts
  (scan.1.map fun _ => (getItem (.str chatId) scan.2.uuidByNumber).getD (.str chatId), scan.2)

/-! ### Calls that take turns -/

/-- The caches, and the calls of `_resolve_recipient` that are under way. -/
structure Client where
  ids : Identifiers := {}
  /-- The chat ids of the calls that wait for the lock. -/
  waiting : List PyStr := []
  /-- The chat id of the call that holds the lock and waits for the contacts. -/
  listing : Option PyStr := none

/-- What happens next. -/
inductive Event where
  /-- A call of `remember_identifiers`. -/
  | remember (number serviceId : Json)
  /-- A call of `_resolve_recipient`. -/
  | resolve (chatId : PyStr)
  /-- A waiting call gets the lock. -/
  | enter (chatId : PyStr)
  /-- `listContacts` answers. -/
  | contacts (result : Json)

/-- A `_resolve_recipient` that ends, with its argument. -/
structure Return where
  chatId : PyStr
  result : Except PyError Json

/-- One step of the client, or `none` if the event cannot happen. -/
def Client.step (client : Client) : Event → Option (Client × Option Return)
  | .remember number serviceId =>
      match client.ids.remember number serviceId with
      | .ok ids => some ({ client with ids }, none)
      | .error _ => some (client, none)
  | .resolve chatId =>
      match client.ids.resolve chatId with
      | .ok (some recipient) => some (client, some ⟨chatId, .ok recipient⟩)
      | .ok none => some ({ client with waiting := client.waiting ++ [chatId] }, none)
      | .error e => some (client, some ⟨chatId, .error e⟩)
  | .enter chatId =>
      if chatId ∈ client.waiting ∧ client.listing = none then
        let client := { client with waiting := client.waiting.erase chatId }
        -- The cache is looked up again, now under the lock.
        match client.ids.cached chatId with
        | some serviceId => some (client, some ⟨chatId, .ok serviceId⟩)
        | none => some ({ client with listing := some chatId }, none)
      else none
  | .contacts result =>
      match client.listing with
      | none => none
      | some chatId =>
          -- The holder of the lock scans the contacts before anyone else runs.
          let (recipient, ids) := client.ids.resolveFrom chatId result
          some ({ client with ids, listing := none }, some ⟨chatId, recipient⟩)

/-- A run of the client. -/
def Client.run (client : Client) : List Event → Option Client
  | [] => some client
  | event :: events => do
      let (client, _) ← client.step event
      client.run events

end SignalGateway.SignalClient
