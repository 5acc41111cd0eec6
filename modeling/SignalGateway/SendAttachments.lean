import SignalGateway.Client
import SignalGateway.Lib.Machine

/-!
# `SignalGateway.SendAttachments`: a send over the shared scheduler

`get_scheduler` returns one scheduler for the whole process. A `Session` is a call of
`send_attachments` with this scheduler, from its first call to its end. The scheduler computes the
answers to the send's own `acquire` and `estimate_wait`, so that a send meets the tokens and the
rate that its own rate limits and those of others have left.

* `Session.step`: one event. Between two calls of the send, other tasks can do anything to the
  scheduler (`Event.other`).
* `Event.goOn` is a call of the send that the scheduler or the clock answers. A call of `acquire`
  that sleeps is ended by a later `goOn`.
* The lookup of the recipient and the daemon answer as they like, so their answers are part of the
  events.

A pause before a retry can end at any time here. Nothing depends on its length.
-/

set_option autoImplicit false

namespace SignalGateway.SendAttachments

open Client Rpc
open RateLimit (bucketCapacity defaultRetryAfterSeconds)

/-- A send under way. `asleep` is the sleep of its call of `acquire`, and `trace` are the calls
that it has made, with their answers. -/
structure Session where
  system : RateLimit.System
  program : Client.Action Bool
  asleep : Option RateLimit.Waiter
  trace : List Client.calls.Event

/-- What happens next. -/
inductive Event where
  /-- Another task calls the scheduler, or its sleep ends. -/
  | other (event : RateLimit.Event)
  | goOn
  | resolved (answer : Except PyError Json)
  | responded (answer : Except PyError Response)

namespace Session

/-- The call of the send gets its answer. -/
def answer (s : Session) (op : Client.Op) (next : op.Answer → Client.Action Bool)
    (x : op.Answer) : Session :=
  { s with program := next x, asleep := none, trace := s.trace ++ [⟨op, x⟩] }

/-- A pass of `acquire` has ended. -/
def passed (s : Session) (n : ℤ) (next : Except SendError ℚ → Client.Action Bool) :
    RateLimit.Record → Session
  | .granted _ _ totalSlept => s.answer (.rpc (.acquire n)) next (.ok totalSlept)
  | .schedulerError _ n' => s.answer (.rpc (.acquire n)) next (.error (.scheduler ⟨n'⟩))
  | .raised _ _ e => s.answer (.rpc (.acquire n)) next (.error (.other e))
  | .sleeping waiter => { s with asleep := some waiter }
  | .returned | .estimated _ | .reported _ => s

/-- The event of the scheduler for a call of `acquire`: its first pass, or the one behind its
sleep. -/
def acquireEvent (s : Session) (n : ℤ) : RateLimit.Event :=
  match s.asleep with
  | none => .acquire s.system.nextId n
  | some waiter => .wake waiter

/-- The scheduler handles an event. -/
def schedule (s : Session) (event : RateLimit.Event) (now : ℚ) :
    Option (Session × RateLimit.Record) :=
  (RateLimit.step s.system event now).map fun out => ({ s with system := out.1 }, out.2)

/-- The send goes on. -/
def goOn (s : Session) (now : ℚ) : Option Session :=
  match s.program with
  | .call (.estimateWait n) next =>
      match s.schedule (.estimateWait n) now with
      | some (s, .estimated wait) => some (s.answer (.estimateWait n) next wait)
      | _ => none
  | .call (.rpc (.acquire n)) next =>
      (s.schedule (s.acquireEvent n) now).map fun out => out.1.passed n next out.2
  | .call (.rpc .monotonic) next => some (s.answer (.rpc .monotonic) next now)
  | .call (.rpc (.reportRpcDuration rpcDuration n)) next =>
      (s.schedule (.reportRpcDuration rpcDuration n) now).map fun out =>
        out.1.answer (.rpc (.reportRpcDuration rpcDuration n)) next ()
  | .call (.rpc (.feedback retryAfter n)) next =>
      (s.schedule (.feedback retryAfter n) now).map fun out =>
        out.1.answer (.rpc (.feedback retryAfter n)) next ()
  -- A backoff may take any time.
  | .call (.rpc (.sleep seconds)) next => some (s.answer (.rpc (.sleep seconds)) next ())
  | _ => none

/-- One event at some time. Nobody else ends the sleep of the send. -/
def step (s : Session) : Event × ℚ → Option Session
  | (event, now) =>
      if now < s.system.clock then none
      else
        match event with
        | .other event =>
            -- The sleep of the send ends with its own event.
            if s.asleep.any fun waiter => event = .wake waiter then none
            else (s.schedule event now).map Prod.fst
        | .goOn => s.goOn now
        | .resolved answer =>
            match s.program with
            | .call (.resolveRecipient chatId) next =>
                some (s.answer (.resolveRecipient chatId) next answer)
            | _ => none
        | .responded answer =>
            match s.program with
            | .call (.rpc (.post method params timeout)) next =>
                some (s.answer (.rpc (.post method params timeout)) next answer)
            | _ => none

/-- How the send has ended, if it has. -/
def result (s : Session) : Option (Except SendError Bool) :=
  match s.program with
  | .pure allOk => some (.ok allOk)
  | .raise e => some (.error e)
  | .call _ _ => none

end Session

section
variable (repr : Json → Except PyError PyStr)
  (listGt : List Json → List Json → Except PyError Bool) (isWord : Nat → Bool)
  (settings : Settings)

/-- A call of `send_attachments`, with a scheduler that was made at `now`. -/
def Session.start (chatId : PyStr) (filePaths : List PyStr) (message : PyStr) (now : ℚ) :
    Session where
  system := .create bucketCapacity defaultRetryAfterSeconds now
  program := sendAttachments repr listGt isWord settings chatId filePaths message
  asleep := none
  trace := []

end

end SignalGateway.SendAttachments
