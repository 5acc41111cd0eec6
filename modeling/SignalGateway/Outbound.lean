import SignalGateway.Lib.Handlers
import SignalGateway.Client
import SignalGateway.Delivery

/-!
# `SignalGateway.Outbound`: a delivery, down to its RPCs

`dispatchCallback` calls the methods of the signal client. Here each of these calls is the program
of the method, so that a delivery calls the RPCs, the scheduler, the files and the downloads.

What a method raises is the answer to the call. A delivery does not tell the errors of a send
apart, so the error of the scheduler, which is not among the errors of the model, stands for any
of them.

* `method` is a method of the client, as a program that answers with its result or its error.
* `own` is a call that the delivery makes itself, on the workspace or for a download.
* `pathText` is the path of a file of the workspace, in the text that the RPC carries.
* `deliver` is `dispatchCallback` over these programs.
-/

set_option autoImplicit false

namespace SignalGateway.Outbound

open Delivery Dispatch
open Rpc (SendError)

/-- The calls of a delivery: those of the signal client, and its own. -/
inductive Op where
  | client (op : Client.Op)
  | own (op : Delivery.Op)

/-- The answers to the calls. -/
def Op.Answer : Op → Type
  | .client op => op.Answer
  | .own op => op.Answer

/-- What a delivery calls. -/
abbrev calls : Interface := ⟨Op, Op.Answer⟩

/-- The error of a method, as the delivery sees it. -/
def raised : SendError → PyError
  | .other e => e
  | .scheduler _ => .valueError

/-- A call of a method. -/
def method (p : Client.Action Bool) : Prog calls Empty (Except PyError Bool) :=
  (p.lift Op.client (fun _ x => x) raised).attempt

/-- A call that is not one of a method. -/
def own (op : Delivery.Op) : Prog calls Empty op.Answer := .call (.own op) .pure

/-- `str(path)`, for a path in the workspace. -/
def pathText (workspace : PyStr) (path : Path) : PyStr :=
  workspace ++ path.flatMap fun part => lit "/" ++ part

section
variable (repr : Json → Except PyError PyStr)
  (listGt : List Json → List Json → Except PyError Bool) (isWord : Nat → Bool)
  (netlocOk : PyStr → Bool) (settings : Settings) (workspace : PyStr)

/-- The program of each call of a delivery. -/
def perform : (op : Delivery.Op) → Prog calls Empty op.Answer
  | .send chatId message =>
      method (Client.send repr listGt isWord settings chatId message [] none)
  | .sendVoiceNote chatId path =>
      method (Client.sendVoiceNote repr listGt settings chatId (pathText workspace path))
  | .sendAttachments chatId paths =>
      method (Client.sendAttachments repr listGt isWord settings chatId
        (paths.map (pathText workspace)) [])
  | .sendReaction chatId emoji targetAuthor targetTimestamp =>
      method (Client.sendReaction repr listGt settings chatId emoji (.str targetAuthor)
        targetTimestamp)
  -- The rest are calls of the delivery itself.
  | .openWorkspace => own .openWorkspace
  | .closeWorkspace => own .closeWorkspace
  | .closeClient => own .closeClient
  | .mkdir path => own (.mkdir path)
  | .stream url token => own (.stream url token)
  | .writeBytes path data => own (.writeBytes path data)

/-- `dispatch_callback`, down to its RPCs. -/
def deliver (payload : CallbackPayload) : Prog calls PyError Bool :=
  (dispatchCallback netlocOk settings true payload).handle
    (perform repr listGt isWord settings workspace)

end

end SignalGateway.Outbound
