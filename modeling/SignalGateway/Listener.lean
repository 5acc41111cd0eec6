import SignalGateway.Lib.Calls
import SignalGateway.SignalClient

/-!
# `SignalGateway.Listener`: the lines of the event stream

The model of `_handle_line` and `_dispatch` of `signal_listener.py`, with the loop of
`_stream_once` over the lines. `json.loads` is a parameter: besides `JSONDecodeError` it can
raise other errors. Each line comes with the time at which its envelope is parsed.

* `eventData` is the payload of a `data:` line, or `None` for another line.
* `handleLine` catches a `JSONDecodeError` of `json.loads`, and every error of `_dispatch`. Another
  error of `json.loads` leaves the loop.
* `streamLines` runs over the lines of one stream.

The cache and the handler are calls here. `SignalGateway.Inbound` says what they do.
-/

set_option autoImplicit false

namespace SignalGateway.Listener

open Envelope SignalClient PyChar

/-- The calls of the listener: the writes to the identifier caches, and the handler. -/
inductive Op where
  | cacheIdentifiers (number serviceId : Json)
  | handler (message : InboundMessage)

/-- The answers to the calls. The handler returns or raises. -/
def Op.Answer : Op → Type
  | .cacheIdentifiers _ _ => Unit
  | .handler _ => Except PyError Unit

/-- What the listener calls. -/
abbrev calls : Interface := ⟨Op, Op.Answer⟩

/-- The listener, or a part of it. -/
abbrev Action (α : Type) := Prog calls PyError α

/-- A line of the stream, and the time at which it is handled. -/
structure Line where
  text : PyStr
  clock : PyFloat

/-- The data of a `data:` line. Blank lines, comments and other fields have none. -/
def eventData (line : PyStr) : Option PyStr :=
  let line := strip line
  if line.isEmpty || (lit ":").isPrefixOf line then none
  else if !(lit "data:").isPrefixOf line then none
  else
    let data := strip (line.drop (lit "data:" : PyStr).length)
    if data.isEmpty then none else some data

/-- `remember_identifiers` of the signal client, if the listener has one. -/
def remember (hasClient : Bool) (message : InboundMessage) : Action Unit :=
  if hasClient then do
    match ← Prog.ofExcept (rememberIdentifiers message.sourceNumber message.sourceUuid) with
    | none => return ()
    | some (number, serviceId) => .call (.cacheIdentifiers number serviceId) fun _ => .pure ()
  else .pure ()

section
variable (loads : PyStr → Except PyError Json) (repr : Json → Except PyError PyStr)
  (settings : Settings) (hasClient : Bool)

/-- `_dispatch` -/
def dispatch (raw : Json) (clock : PyFloat) : Action Unit := do
  match ← Prog.ofExcept (parseEnvelope repr raw settings clock) with
  | none => return ()
  | some message =>
      -- An error of the caches loses the message: the handler comes behind them.
      remember hasClient message
      .call (.handler message) .ofExcept

/-- `_handle_line` -/
def handleLine (line : Line) : Action Unit :=
  match eventData line.text with
  | none => .pure ()
  | some data =>
      match loads data with
      | .error .jsonDecodeError => .pure ()
      -- Only a `JSONDecodeError` is caught around `json.loads`.
      | .error e => .raise e
      | .ok raw => (dispatch repr settings hasClient raw line.clock).tryCatch fun _ => .pure ()

/-- The loop of `_stream_once`. An error leaves the stream. -/
def streamLines : List Line → Action Unit
  | [] => .pure ()
  | line :: lines => do
      handleLine loads repr settings hasClient line
      streamLines lines

end

end SignalGateway.Listener
