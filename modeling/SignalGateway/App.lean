import SignalGateway.BackgroundTasks
import SignalGateway.Inbound
import SignalGateway.Recipients

/-!
# `SignalGateway.App`: the two halves over one signal client

The model of what `run` of `app.py` starts: the listener with its handler, and the callback
server with its background tasks. Both send through one `SignalClient`, so they share its
identifier caches and the lock of the caches.

`Connection` and `BackgroundTasks` let a call of `_resolve_recipient` return anything. Here it is
a call of the client of `Recipients`: it returns at once, or it waits for the lock, and the
holder of the lock asks for the contacts. All other calls are answered as before.

* `Setup` are the settings and the parameters of the model.
* `System` has the listener, the background tasks, the client, and a queue of the lookups that
  wait for the lock.
* `System.step` is a step of one half, or of the client. A lookup that ends answers the call of its
  caller.
-/

set_option autoImplicit false

namespace SignalGateway.App

open Envelope SignalClient

/-- What the process is started with, and the functions that the model leaves open. -/
structure Setup where
  loads : PyStr → Except PyError Json
  repr : Json → Except PyError PyStr
  listGt : List Json → List Json → Except PyError Bool
  isWord : Nat → Bool
  netlocOk : PyStr → Bool
  settings : Settings
  engineBaseUrl : PyStr
  /-- The directory of `temp_workspace` of each task. -/
  workspace : Nat → PyStr

/-- The program of a line of the stream. -/
def Setup.handleLine (setup : Setup) : Listener.Line → Prog Inbound.calls PyError Unit :=
  Inbound.handleLine setup.loads setup.repr setup.listGt setup.settings
    ⟨setup.settings, setup.engineBaseUrl⟩

/-- The program of a background task. -/
def Setup.delivery (setup : Setup) : Nat → BackgroundTasks.Job → Prog Outbound.calls PyError Bool :=
  BackgroundTasks.delivery setup.repr setup.listGt setup.isWord setup.netlocOk setup.settings
    setup.workspace

/-- What the callback server is created with. -/
def Setup.config (setup : Setup) : CallbackServer.Config := ⟨setup.settings.engineApiKey, true⟩

/-- Who calls `_resolve_recipient`: the handler of the listener, or a background task. -/
inductive Caller where
  | listener
  | task (id : Nat)
deriving DecidableEq, Repr

/-- The two halves and their client. -/
structure System where
  listener : Connection.System Inbound.calls
  tasks : BackgroundTasks.System
  client : SignalClient.Client
  /-- The calls that wait for the lock of the caches, with the chat ids they look up. -/
  waiting : List (Caller × PyStr)
  /-- The call that holds the lock and waits for the contacts. -/
  listing : Option Caller
  /-- What has happened to the client. -/
  history : List SignalClient.Event

/-- `run` at time `now`, with the clock of `CompletedKeys` at `nowMs`. -/
def System.start (ttl sweepInterval nowMs now : ℚ) : System where
  listener := .start Inbound.calls now
  tasks := .create ttl sweepInterval nowMs
  client := {}
  waiting := []
  listing := none
  history := []

/-- What can happen. -/
inductive Event where
  /-- A step of the listener that does not touch the client. -/
  | listener (event : Connection.Timed Inbound.calls)
  /-- A step of the server or of a task that does not touch the client. -/
  | tasks (event : BackgroundTasks.Event)
  /-- The listener calls `remember_identifiers`. -/
  | remember
  /-- A `_resolve_recipient` begins. -/
  | resolve (caller : Caller)
  /-- A waiting call gets the lock. -/
  | enter (caller : Caller) (chatId : PyStr)
  /-- `listContacts` answers. -/
  | contacts (result : Json)

/-- The event answers a call of the consumer. -/
def isAnswer : Connection.Event Inbound.calls → Bool
  | .consumer (.answered _) => true
  | _ => false

/-- The pair that the listener is about to cache. -/
def System.remembers (s : System) : Option (Json × Json) :=
  match s.listener.consumer with
  | .handling (.call (.cacheIdentifiers number serviceId) _) => some (number, serviceId)
  | _ => none

/-- The chat id that a caller is about to look up. -/
def System.asks (s : System) : Caller → Option PyStr
  | .listener =>
      match s.listener.consumer with
      | .handling (.call (.client (.resolveRecipient chatId)) _) => some chatId
      | _ => none
  | .task id =>
      match s.tasks.pool.tasks id with
      | some ⟨_, .call (.client (.resolveRecipient chatId)) _⟩ => some chatId
      | _ => none

/-- The task of an event that answers a call. -/
def answeredTask : BackgroundTasks.Event → Option Nat
  | .answered id _ => some id
  | _ => none

/-- The listener goes on behind a call with this answer. -/
def System.answerListener (s : System) (ev : Inbound.calls.Event)
    (rest : Prog Inbound.calls PyError Unit) : System :=
  { s with listener := { s.listener with log := s.listener.log ++ [ev] }.goOn rest }

/-- The task goes on behind a call with this answer. -/
def System.answerTask (s : System) (id : Nat) (job : BackgroundTasks.Job)
    (ev : Outbound.calls.Event) (rest : Prog Outbound.calls PyError Bool) : System :=
  { s with tasks := { s.tasks with pool := { s.tasks.pool with
      tasks := Function.update s.tasks.pool.tasks id (some ⟨job, rest⟩)
      made := s.tasks.pool.made ++ [(id, ev)] } } }

/-- `_resolve_recipient` ends, and its caller goes on. -/
def System.reply (s : System) (recipient : Except PyError Json) : Caller → Option System
  | .listener =>
      match s.listener.consumer with
      | .handling (.call (.client (.resolveRecipient chatId)) next) =>
          some (s.answerListener ⟨.client (.resolveRecipient chatId), recipient⟩ (next recipient))
      | _ => none
  | .task id =>
      match s.tasks.pool.tasks id with
      | some ⟨job, .call (.client (.resolveRecipient chatId)) next⟩ =>
          some (s.answerTask id job ⟨.client (.resolveRecipient chatId), recipient⟩
            (next recipient))
      | _ => none

/-- The client after an event of its own. -/
def System.touch (s : System) (event : SignalClient.Event) (client : SignalClient.Client) :
    System := { s with client, history := s.history ++ [event] }

/-- One event. An event that is not possible in the state has no successor. -/
def System.step (setup : Setup) (s : System) : Event → Option System
  | .listener event => do
      -- These calls of the listener go through the client.
      if isAnswer event.1 && (s.remembers.isSome || (s.asks .listener).isSome) then none
      else
        let listener ← s.listener.step setup.handleLine event
        some { s with listener }
  | .tasks event => do
      -- And so do the lookups of the tasks.
      if (answeredTask event).any fun id => (s.asks (.task id)).isSome then none
      else
        let tasks ← s.tasks.step setup.delivery setup.config event
        some { s with tasks }
  | .remember =>
      match s.listener.consumer with
      | .handling (.call (.cacheIdentifiers number serviceId) next) => do
          let (client, _) ← s.client.step (.remember number serviceId)
          let s := s.touch (.remember number serviceId) client
          some (s.answerListener ⟨.cacheIdentifiers number serviceId, ()⟩ (next ()))
      | _ => none
  | .resolve caller => do
      let chatId ← s.asks caller
      -- The call has begun already.
      if caller ∈ s.waiting.map Prod.fst ∨ s.listing = some caller then none
      else
        let (client, ret) ← s.client.step (.resolve chatId)
        let s := s.touch (.resolve chatId) client
        match ret with
        | some ret => s.reply ret.result caller
        | none => some { s with waiting := s.waiting ++ [(caller, chatId)] }
  | .enter caller chatId => do
      -- Any waiting call may be the next to get the lock.
      if (caller, chatId) ∈ s.waiting then
        let (client, ret) ← s.client.step (.enter chatId)
        let s := { s.touch (.enter chatId) client with
          waiting := s.waiting.erase (caller, chatId) }
        match ret with
        | some ret => s.reply ret.result caller
        | none => some { s with listing := some caller }
      else none
  | .contacts result => do
      let caller ← s.listing
      let (client, ret) ← s.client.step (.contacts result)
      let s := { s.touch (.contacts result) client with listing := none }
      match ret with
      | some ret => s.reply ret.result caller
      | none => none

/-- A sequence of events. -/
abbrev System.run (setup : Setup) (s : System) (events : List Event) : Option System :=
  Machine.run (System.step setup) s events

end SignalGateway.App
