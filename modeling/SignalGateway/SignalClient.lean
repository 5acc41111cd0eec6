import SignalGateway.EngineClient
import SignalGateway.Py.Uuid

/-!
# `SignalGateway.SignalClient`: where a message goes

The model of the identifiers and of the routing in `signal_client.py`.

* `isSignalServiceId` and `rememberIdentifiers`: which identifiers are cached.
* `applyDestination`: the group or the recipient of an RPC. What `_resolve_recipient` does for a
  direct chat is a parameter, so that `Client` can give it a program, and a proof a function.

A pair is cached only if its service id is a UUID or starts with `PNI:` or `u:`. An identifier that
is no string can raise, which is why the first two return an `Except`.
-/

set_option autoImplicit false

namespace SignalGateway.SignalClient

open Envelope EngineClient

/-- `_is_signal_service_id` -/
def isSignalServiceId : Json → Except PyError Bool
  | .str s =>
      .ok (!s.isEmpty && ((lit "PNI:").isPrefixOf s || (lit "u:").isPrefixOf s || isUuid s))
  -- Only a `str` has the method `startswith`.
  | value => if value.truthy then .error .attributeError else .ok false

/-- `remember_identifiers`: the pair that is cached. A number without a hash raises. -/
def rememberIdentifiers (number serviceId : Json) : Except PyError (Option (Json × Json)) := do
  if !number.truthy then return none
  if !serviceId.truthy then return none
  if !(← isSignalServiceId serviceId) then return none
  if !number.hashable then throw .typeError
  return some (number, serviceId)

/-- `params[key] = value` for a new key. -/
def addParam (params : List (PyStr × Json)) (key : String) (value : Json) :
    List (PyStr × Json) := params ++ [(lit key, value)]

/-- `_apply_destination`. The lookup of the recipient can be a program with calls. -/
def applyDestination {m : Type → Type} [Monad m] (resolveRecipient : PyStr → m Json)
    (params : List (PyStr × Json)) (chatId : PyStr) : m (List (PyStr × Json)) := do
  if groupPrefix.isPrefixOf chatId then
    return addParam params "groupId" (.str (chatId.drop groupPrefix.length))
  -- A chat that is no group is looked up first.
  let recipient ← resolveRecipient chatId
  return addParam params "recipient" (.arr [recipient])

end SignalGateway.SignalClient
