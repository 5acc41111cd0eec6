import SignalGateway.Proofs.CallbackFormat
import SignalGateway.Proofs.Lookups
import SignalGateway.Proofs.PostedAudio

/-!
# `SignalGateway.Proofs.Conversation`: replies come back to the chat of their message

The two halves of the process meet at the worker, which is not part of the model. `Answers` is what
is expected of it: a callback has the user, the key and the chat of the request that it answers.
Then a message, its request and the RPCs of all its replies belong together (`replies_come_back`):
every request is that of a line of the stream, and what answers it goes to the chat of this line.

`parts_of_run` says that the process is its parts side by side. What is proved of the listener, of
the endpoint with its deliveries, or of the client alone holds of them in the process as well.

The theorems:

* `replies_come_back`: takes the calls of the listener from `Inbound.line_contract`, those of the
  deliveries from `Outbound`, and ties them by the address in the request. A payload that nobody
  asked for is not excluded. It goes to its own recipient.
* `parts_of_run`: the refinement of the whole to its parts. The events of the process are those
  of the two halves and of the client, and each part goes through its own steps only.

The example is a message in a group, its request, and the reply to it.
-/

set_option autoImplicit false

namespace SignalGateway.Proofs.Inbound

open SignalGateway.Envelope SignalGateway.EngineClient SignalGateway.Media
open SignalGateway.Connection SignalGateway.Inbound
open SignalGateway.Proofs.Connection (linesOf)

section
variable {loads : PyStr → Except PyError Json} {repr : Json → Except PyError PyStr}
  {listGt : List Json → List Json → Except PyError Bool} {settings : Settings}
  {worker : Submit.Client} {url : PyStr} {body : List (PyStr × Json)}
  {headers : List (PyStr × PyStr)}

/-- In every run, every POST to the worker has the request of a message that has arrived. -/
theorem request_of_post {events : List (Timed Inbound.calls)} {t₀ : ℚ}
    {s : Connection.System Inbound.calls}
    (h : (System.start Inbound.calls t₀).run
      (Inbound.handleLine loads repr listGt settings worker) events = some s)
    {answer : (Inbound.Op.worker (.post url body headers)).Answer}
    (hpost : ⟨.worker (.post url body headers), answer⟩ ∈ s.log) :
    ∃ line ∈ linesOf events, ∃ message audio?,
      Listener.accepted loads repr settings line = some message ∧
      buildChatRequest message worker.settings audio? = .ok body := by
  obtain ⟨before, after, hlog⟩ := List.append_of_mem hpost
  obtain ⟨line, hline, message, front, earlier, later, haccepted, -, hhandled⟩ :=
    handled_of_post h hlog
  have hmem : (url, body, headers) ∈ posts
      (earlier ++ ⟨.worker (.post url body headers), answer⟩ :: later) := by
    rw [posts_append]
    exact List.mem_append_right _ List.mem_cons_self
  obtain ⟨-, -, audio?, -, -, -, hbody⟩ := hhandled.relayed hmem
  exact ⟨line, hline, message, audio?, haccepted, hbody⟩

end

end SignalGateway.Proofs.Inbound

namespace SignalGateway.Proofs.App

open SignalGateway.Envelope SignalGateway.EngineClient SignalGateway.Dispatch
open SignalGateway.App
open SignalGateway.Proofs.Connection (linesOf)
open SignalGateway.Proofs.Envelope (Parse parse_of_ok eq_of_eqStr)

/-- The callback has the address of the request. -/
structure Answers (request : List (PyStr × Json)) (payload : CallbackPayload) : Prop where
  userId : Json.lookup request "user_id" = .str payload.userId
  messageKey : Json.lookup request "message_key" = .str payload.messageKey
  chatId : payload.chatId = (Json.lookup request "chat_id").strOrNone

section
variable {repr : Json → Except PyError PyStr} {raw : Json} {clock : PyFloat}
  {message : InboundMessage} {settings : Settings} {audio? : Option Media.InboundAudio}
  {request : List (PyStr × Json)} {payload : CallbackPayload}

/-- A message on a line was accepted. -/
theorem parse_of_accepted {loads : PyStr → Except PyError Json} {line : Listener.Line}
    (h : Listener.accepted loads repr settings line = some message) :
    ∃ raw, Nonempty (Parse repr raw settings line.clock message) := by
  simp only [Listener.accepted, Option.bind_eq_bind, Option.bind_eq_some_iff] at h
  obtain ⟨data, -, raw, -, hjoin⟩ := h
  refine ⟨raw, ?_⟩
  cases hparse : parseEnvelope repr raw settings line.clock with
  | error e =>
    rw [hparse] at hjoin
    cases hjoin
  | ok message? =>
    rw [hparse] at hjoin
    obtain rfl : message? = some message := hjoin
    exact parse_of_ok hparse

/-- The address of a callback is that of the message whose request it answers. -/
theorem address_of_answers (p : Parse repr raw settings clock message)
    (hrequest : buildChatRequest message settings audio? = .ok request)
    (h : Answers request payload) :
    message.chatId = .str (recipient payload) ∧ message.userId = .str payload.userId ∧
      intStr payload.messageKey = .ok message.timestampMs := by
  obtain ⟨key, hkey, huser, hmessageKey, hchat⟩ := Routing.buildChatRequest_fields hrequest
  have huser' : message.userId = .str payload.userId := huser.symm.trans h.userId
  obtain rfl : key = payload.messageKey := Json.str.inj (hmessageKey.symm.trans h.messageKey)
  refine ⟨?_, huser', intStr_of_strInt hkey⟩
  have hchatId := p.chatId_eq
  have hback := h.chatId
  rw [chatIdOf, ← p.isGroup_eq] at hchatId
  rw [hchat] at hback
  -- In a group the reply names the chat, in a direct chat only the sender.
  cases hgroup : message.isGroup with
  | true =>
    rw [hgroup, if_pos rfl] at hchatId hback
    cases hid : message.groupId.toStr repr with
    | error e =>
      rw [hid] at hchatId
      cases hchatId
    | ok id =>
      rw [hid] at hchatId
      have hprefixed : message.chatId = .str (groupPrefix ++ id) := (Except.ok.inj hchatId).symm
      rw [hprefixed, Routing.strOrNone_str (by simp [groupPrefix, lit])] at hback
      rw [hprefixed, recipient, hback]
      rfl
  | false =>
    rw [hgroup, if_neg Bool.false_ne_true] at hchatId hback
    rw [← Except.ok.inj hchatId, huser', recipient, hback]
    rfl

end

/-- In every run of the process, each POST to the worker has the request of a message that has
arrived. Whatever the process does, each RPC for a callback that answers this request goes to the
chat of this message. The author and the timestamp of its reactions are those of the message. -/
theorem replies_come_back {setup : Setup} {s : System} {ttl sweepInterval nowMs now : ℚ}
    {events : List App.Event}
    (h : (System.start ttl sweepInterval nowMs now).run setup events = some s) {url : PyStr}
    {body : List (PyStr × Json)} {headers : List (PyStr × PyStr)}
    {answer : (Inbound.Op.worker (.post url body headers)).Answer}
    (hpost : ⟨.worker (.post url body headers), answer⟩ ∈ s.listener.log) :
    ∃ line ∈ streamLines events, ∃ message audio?,
      Listener.accepted setup.loads setup.repr setup.settings line = some message ∧
      buildChatRequest message setup.settings audio? = .ok body ∧
      ∀ id job, BackgroundTasks.Scheduled s.tasks.records id job → Answers body job.payload →
        message.userId = .str job.payload.userId ∧
        intStr job.payload.messageKey = .ok message.timestampMs ∧
        ∃ chatId, message.chatId = .str chatId ∧
          ∀ ev ∈ Pool.ownCalls id s.tasks.pool.made,
            Outbound.DeliveryOp setup.settings chatId (Learned setup events chatId) ev.1 := by
  have hinv := inv_run h
  obtain ⟨es, hrun, hlines⟩ := hinv.listener
  -- The request was made for a line of the stream.
  obtain ⟨line, hline, message, audio?, haccepted, hrequest⟩ := Inbound.request_of_post hrun hpost
  obtain ⟨raw, ⟨p⟩⟩ := parse_of_accepted haccepted
  refine ⟨line, hlines ▸ hline, message, audio?, haccepted, hrequest, ?_⟩
  intro id job hscheduled hanswers
  -- An answer to it has the address of the message.
  obtain ⟨hchat, huser, hkey⟩ := address_of_answers p hrequest hanswers
  exact ⟨huser, hkey, _, hchat, hinv.delivery hscheduled⟩

/-- In every run of the process, the listener is in a run of its own over the lines that have
arrived, the endpoint with its deliveries is in a run of its own, and so is the client. -/
theorem parts_of_run {setup : Setup} {s : System} {ttl sweepInterval nowMs now : ℚ}
    {events : List App.Event}
    (h : (System.start ttl sweepInterval nowMs now).run setup events = some s) :
    (∃ es, (Connection.System.start Inbound.calls now).run setup.handleLine es = some s.listener ∧
        linesOf es = streamLines events) ∧
      (∃ es, BackgroundTasks.System.run setup.repr setup.listGt setup.isWord setup.netlocOk
        setup.settings setup.workspace setup.config (.create ttl sweepInterval nowMs) es
          = some s.tasks) ∧
      ({} : SignalClient.Client).run s.history = some s.client :=
  ⟨(inv_run h).listener, (inv_run h).tasks, client_run h⟩

/-- The gateway in a group. -/
def groupSetup : Setup where
  loads := Listener.sampleLoads
  repr _ := .ok []
  listGt _ _ := .ok false
  isWord := Markdown.asciiWord
  netlocOk _ := true
  settings := Routing.groupSettings
  engineBaseUrl := lit "https://engine.example"
  workspace _ := lit "/tmp/reply"

/-- The worker answers the message in the group. -/
def groupReply : CallbackServer.Request where
  token := some (lit "key")
  body := some (.obj [(lit "type", .str (lit "complete")), (lit "user_id", .str (lit "8c1f")),
    (lit "message_key", .str (lit "1700000000000")), (lit "chat_id", .str (lit "group:Z3Jw")),
    (lit "text", .str (lit "hi"))])

/-- The payload of this answer. -/
def groupPayload : CallbackPayload where
  type := .complete
  userId := lit "8c1f"
  messageKey := lit "1700000000000"
  chatId := some (lit "group:Z3Jw")
  text := some (lit "hi")

/-- A message arrives and is posted to the worker. The worker answers, and the delivery begins. -/
def conversation : List App.Event :=
  [.listener (.consumer (.responded 200), 0),
    .listener (.consumer (.line Listener.groupLine), 1),
    .listener (.consumer (.answered Inbound.calmAnswers), 2),
    .listener (.consumer (.answered Inbound.calmAnswers), 3),
    .tasks (.request 0 groupReply 3), .tasks (.answered 0 BackgroundTasks.friendlyAnswers)]

/-- The call posts the request that the payload answers. -/
def postsQuestion : Inbound.Op → Bool
  | .worker (.post _ body _) =>
      (Json.lookup body "user_id").eqStr groupPayload.userId &&
        (Json.lookup body "message_key").eqStr groupPayload.messageKey &&
        decide (groupPayload.chatId = (Json.lookup body "chat_id").strOrNone)
  | _ => false

/-- A call that posts the question is answered by the payload. -/
theorem post_of_postsQuestion {op : Inbound.Op} (h : postsQuestion op = true) :
    ∃ url body headers, op = .worker (.post url body headers) ∧ Answers body groupPayload := by
  cases op with
  | worker op =>
    cases op with
    | post url body headers =>
      obtain ⟨hboth, hchat⟩ := Bool.and_eq_true_iff.mp h
      obtain ⟨huser, hkey⟩ := Bool.and_eq_true_iff.mp hboth
      exact ⟨url, body, headers, rfl, eq_of_eqStr huser, eq_of_eqStr hkey, of_decide_eq_true hchat⟩
    | sleep seconds => cases h
  | cacheIdentifiers number serviceId => cases h
  | client op => cases h

/-- The reply to a message in a group comes back. -/
theorem replies_come_back_group : ∃ s url body headers answer,
    (System.start CallbackServer.dedupTtlMs 60000 0 0).run groupSetup conversation = some s ∧
    ⟨.worker (.post url body headers), answer⟩ ∈ s.listener.log ∧
    BackgroundTasks.Scheduled s.tasks.records 0 ⟨groupPayload, true⟩ ∧
    Answers body groupPayload ∧
    ∃ line ∈ streamLines conversation, ∃ message audio?,
      Listener.accepted groupSetup.loads groupSetup.repr groupSetup.settings line = some message ∧
      buildChatRequest message groupSetup.settings audio? = .ok body ∧
      ∀ id job, BackgroundTasks.Scheduled s.tasks.records id job → Answers body job.payload →
        message.userId = .str job.payload.userId ∧
        intStr job.payload.messageKey = .ok message.timestampMs ∧
        ∃ chatId, message.chatId = .str chatId ∧
          ∀ ev ∈ Pool.ownCalls id s.tasks.pool.made,
            Outbound.DeliveryOp groupSetup.settings chatId
              (Learned groupSetup conversation chatId) ev.1 := by
  have hcomputed : ((System.start CallbackServer.dedupTtlMs 60000 0 0).run groupSetup
      conversation).any (fun s => (s.listener.log.any fun ev => postsQuestion ev.1) &&
        s.tasks.records.any fun record =>
          decide (BackgroundTasks.scheduledBy record = some (0, ⟨groupPayload, true⟩))) = true := by
    decide +kernel
  obtain ⟨s, hrun, hboth⟩ := (Option.any_eq_true _ _).mp hcomputed
  obtain ⟨hlog, hrecords⟩ := Bool.and_eq_true_iff.mp hboth
  obtain ⟨⟨op, answer⟩, hmem, hposts⟩ := List.any_eq_true.mp hlog
  obtain ⟨url, body, headers, rfl, hanswers⟩ := post_of_postsQuestion hposts
  obtain ⟨record, hrecord, hscheduled⟩ := List.any_eq_true.mp hrecords
  exact ⟨s, url, body, headers, answer, hrun, hmem,
    ⟨record, hrecord, of_decide_eq_true hscheduled⟩, hanswers, replies_come_back hrun hmem⟩

/-- The two halves of that conversation. -/
theorem parts_of_run_group : ∃ s,
    (System.start CallbackServer.dedupTtlMs 60000 0 0).run groupSetup conversation = some s ∧
    (∃ es, (Connection.System.start Inbound.calls 0).run groupSetup.handleLine es
        = some s.listener ∧ linesOf es = streamLines conversation) ∧
      (∃ es, BackgroundTasks.System.run groupSetup.repr groupSetup.listGt groupSetup.isWord
        groupSetup.netlocOk groupSetup.settings groupSetup.workspace groupSetup.config
        (.create CallbackServer.dedupTtlMs 60000 0) es = some s.tasks) ∧
      ({} : SignalClient.Client).run s.history = some s.client := by
  obtain ⟨s, hrun⟩ := Option.isSome_iff_exists.mp
    (show ((System.start CallbackServer.dedupTtlMs 60000 0 0).run groupSetup
      conversation).isSome = true by decide +kernel)
  exact ⟨s, hrun, parts_of_run hrun⟩

end SignalGateway.Proofs.App
