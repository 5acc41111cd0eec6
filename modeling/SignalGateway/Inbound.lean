import SignalGateway.Connection
import SignalGateway.Outbound
import SignalGateway.Relay
import SignalGateway.Submit

/-!
# `SignalGateway.Inbound`: a line of the stream, down to its requests

`Listener` hands the message of a line to a handler, `Relay` is this handler over the methods of
its two clients, and `Client` and `Submit` are the methods. Here a line is one program that calls
the RPCs of the signal client and the POSTs to the worker.

* `method` turns a method of the client into a program that answers with its result or its error.
  `Listener` and `Relay` see such an answer only.
* `handler` is `Relay.relay` over these methods, and `handleLine` is `Listener.handleLine` over
  `handler`.

The composition is `handle` of `SignalGateway.Lib.Handlers`: every call of the upper program is
replaced by the run of a lower one.
-/

set_option autoImplicit false

namespace SignalGateway.Inbound

open Envelope EngineClient

/-- The calls for a line: the writes to the identifier caches, those of the signal client, and
those of a submission. -/
inductive Op where
  | cacheIdentifiers (number serviceId : Json)
  | client (op : Client.Op)
  | worker (op : Submit.Op)

/-- The answers to the calls. -/
def Op.Answer : Op → Type
  | .cacheIdentifiers _ _ => Unit
  | .client op => op.Answer
  | .worker op => op.Answer

/-- What a line calls. -/
abbrev calls : Interface := ⟨Op, Op.Answer⟩

/-- A call of a method of the signal client. -/
def method {α : Type} (p : Client.Action α) : Prog calls Empty (Except PyError α) :=
  (p.lift Op.client (fun _ x => x) Outbound.raised).attempt

section
variable (loads : PyStr → Except PyError Json) (repr : Json → Except PyError PyStr)
  (listGt : List Json → List Json → Except PyError Bool) (settings : Settings)
  (worker : Submit.Client)

/-- `send_reaction`, for a chat id that may not be a string. -/
def sendReaction (chatId : Json) (emoji : PyStr) (targetAuthor : Json) (targetTimestamp : ℤ) :
    Prog calls Empty (Except PyError Bool) :=
  match chatId with
  | .str chatId =>
      method (Client.sendReaction repr listGt settings chatId emoji targetAuthor targetTimestamp)
  -- There is no `startswith`.
  | _ => .pure (.error .attributeError)

/-- The RPC of `get_attachment`. -/
def rpcGetAttachment (id : PyStr) : Prog calls Empty Json :=
  -- `_rpc` swallows every error here.
  (method (Client.rpc repr listGt "getAttachment"
    (dict [("account", .str settings.signalAccount), ("id", .str id)]))).andThen fun result =>
      .pure (result.toOption.getD .null)

/-- `submit` -/
def submit (message : InboundMessage) (audio : Option Media.InboundAudio) :
    Prog calls Empty (Except PyError Bool) :=
  ((Submit.submit worker message audio).lift Op.worker (fun _ x => x) id).attempt

/-- The program of each call of the handler. -/
def performRelay : (op : Relay.Op) → Prog calls Empty op.Answer
  | .sendReaction chatId emoji targetAuthor targetTimestamp =>
      sendReaction repr listGt settings chatId emoji targetAuthor targetTimestamp
  | .rpcGetAttachment id => rpcGetAttachment repr listGt settings id
  | .submit message audio => submit worker message audio

/-- The handler of `_make_inbound_handler`. -/
def handler (message : InboundMessage) : Prog calls Empty (Except PyError Unit) :=
  ((Relay.relay message).handle (performRelay repr listGt settings worker)).attempt

/-- The program of each call of the listener. -/
def perform : (op : Listener.Op) → Prog calls Empty op.Answer
  | .cacheIdentifiers number serviceId => .call (.cacheIdentifiers number serviceId) .pure
  | .handler message => handler repr listGt settings worker message

/-- `_handle_line`, down to its requests. -/
def handleLine (line : Listener.Line) : Prog calls PyError Unit :=
  (Listener.handleLine loads repr settings true line).handle
    (perform repr listGt settings worker)

end

end SignalGateway.Inbound
