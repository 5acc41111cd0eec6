import SignalGateway.Proofs.Base64
import SignalGateway.Proofs.Inbound
import SignalGateway.Proofs.Requests

/-!
# `SignalGateway.Proofs.PostedAudio`: the audio that the worker gets

`posted_audio_run`: the audio of a POST to the worker is what the daemon has returned for the
attachment of the message before that POST, byte for byte. The POST is found among the calls for
its line (`handled_of_post`), which fetch before they post (`Relayed`), and base64 loses nothing.

The proof goes along the calls for one line. `Handled.relayed` finds the message of a POST,
`Handled.audio` the attachment that its audio was fetched for. `FetchedBytes` says that an RPC for
this attachment has returned the bytes, that there are some, and that they are not too many.
-/

set_option autoImplicit false

namespace SignalGateway.Proofs.Inbound

open SignalGateway.Envelope SignalGateway.EngineClient SignalGateway.Media
open SignalGateway.Connection SignalGateway.Inbound
open SignalGateway.Proofs.Relay (Wants)
open SignalGateway.Proofs.Connection (linesOf delivered callFor_run)
open SignalGateway.Proofs.Envelope (eq_of_eqStr)

section
variable {loads : PyStr → Except PyError Json} {repr : Json → Except PyError PyStr}
  {listGt : List Json → List Json → Except PyError Bool} {settings : Settings}
  {worker : Submit.Client} {message : InboundMessage}

/-- The bytes of the audio of a message, as the daemon has returned them. -/
structure FetchedBytes (repr : Json → Except PyError PyStr)
    (listGt : List Json → List Json → Except PyError Bool) (settings : Settings)
    (before : List Inbound.calls.Event) (message : InboundMessage) (format : PyStr) (data : Bytes) :
    Prop where
  fetched : ∃ ref result, Wants message ref format ∧
    Fetches repr listGt settings before ref.id result ∧ attachmentBytes result = .ok (some data)
  nonempty : data ≠ []
  small : data.length ≤ maxInboundAudioBytes

/-- A longer trace still holds the answer. -/
theorem Fetches.mono {t t' : List Inbound.calls.Event} {id : PyStr} {result : Json}
    (h : Fetches repr listGt settings t id result) (hsub : ∀ ev ∈ t, ev ∈ t') :
    Fetches repr listGt settings t' id result := by
  obtain ⟨answer, hmem, hresult⟩ := h
  exact ⟨answer, hsub _ hmem, hresult⟩

/-- A POST for a message has the one request that was made of the message. -/
theorem Handled.relayed {t : List Inbound.calls.Event} {url : PyStr} {body : List (PyStr × Json)}
    {headers : List (PyStr × PyStr)} (h : Handled repr listGt settings worker t message)
    (hpost : (url, body, headers) ∈ posts t) :
    ∃ fetched posted audio?, t = fetched ++ posted ∧ posts fetched = [] ∧
      (∀ audio, audio? = some audio ↔ FetchedFor repr listGt settings fetched message audio) ∧
      buildChatRequest message worker.settings audio? = .ok body := by
  rcases h with ⟨hnil, -⟩ |
    ⟨fetched, posted, audio?, body', n, rfl, hnil, -, haudio, hbody, -, -, heq⟩
  · rw [hnil] at hpost
    exact absurd hpost List.not_mem_nil
  · rw [posts_append, hnil, List.nil_append, heq] at hpost
    obtain ⟨-, rfl, -⟩ : url = worker.url ∧ body = body' ∧ headers = worker.headers := by
      simpa using List.eq_of_mem_replicate hpost
    exact ⟨fetched, posted, audio?, rfl, hnil, haudio, hbody⟩

/-- Behind a POST for a message, the bytes of its audio have been fetched. -/
theorem Handled.audio {earlier later : List Inbound.calls.Event} {url : PyStr}
    {body : List (PyStr × Json)} {headers : List (PyStr × PyStr)}
    {answer : (Inbound.Op.worker (.post url body headers)).Answer} {text : PyStr}
    (h : Handled repr listGt settings worker
      (earlier ++ ⟨.worker (.post url body headers), answer⟩ :: later) message)
    (htext : Json.lookup body "audio_base64" = .str text) :
    ∃ format data, FetchedBytes repr listGt settings earlier message format data ∧
      b64decode true text = .ok data ∧
      buildChatRequest message worker.settings (some ⟨text, format⟩) = .ok body := by
  have hpost : (url, body, headers)
      ∈ posts (earlier ++ ⟨.worker (.post url body headers), answer⟩ :: later) := by
    rw [posts_append]
    exact List.mem_append_right _ List.mem_cons_self
  obtain ⟨fetched, posted, audio?, hsplit, hnil, haudio, hbody⟩ := h.relayed hpost
  obtain ⟨-, -, hbase64⟩ := Requests.buildChatRequest_content hbody
  rw [htext] at hbase64
  cases haudio? : audio? with
  | none =>
    rw [haudio?] at hbase64
    cases hbase64
  | some audio =>
    rw [haudio?] at hbase64 hbody
    obtain ⟨ref, format, result, data, hwants, hfetches, hdata, hne, hle, rfl⟩ :=
      (haudio audio).mp haudio?
    obtain rfl : text = b64encode data := Json.str.inj hbase64
    have hfetched : Fetches repr listGt settings earlier ref.id result := by
      refine hfetches.mono fun ev hev => ?_
      -- what was fetched lies before the first POST
      rcases List.append_eq_append_iff.mp hsplit with ⟨tail, rfl, htail⟩ | ⟨tail, rfl, -⟩
      · cases tail with
        | nil => simpa using hev
        | cons first tail =>
          obtain ⟨rfl, -⟩ := List.cons.inj htail
          rw [posts_append] at hnil
          exact absurd (List.append_eq_nil_iff.mp hnil).2 (List.cons_ne_nil _ _)
      · exact List.mem_append_left _ hev
    exact ⟨format, data, ⟨⟨ref, result, hwants, hfetched, hdata⟩, hne, hle⟩,
      Base64.b64decode_b64encode true data, hbody⟩

/-- In every run, each POST to the worker is among the calls for a message that has arrived. -/
theorem handled_of_post {events : List (Timed Inbound.calls)} {t₀ : ℚ}
    {s : Connection.System Inbound.calls}
    (h : (System.start Inbound.calls t₀).run
      (Inbound.handleLine loads repr listGt settings worker) events = some s)
    {before after : List Inbound.calls.Event} {url : PyStr} {body : List (PyStr × Json)}
    {headers : List (PyStr × PyStr)}
    {answer : (Inbound.Op.worker (.post url body headers)).Answer}
    (hlog : s.log = before ++ ⟨.worker (.post url body headers), answer⟩ :: after) :
    ∃ line ∈ linesOf events, ∃ message front earlier later,
      Listener.accepted loads repr settings line = some message ∧ before = front ++ earlier ∧
      Handled repr listGt settings worker
        (earlier ++ ⟨.worker (.post url body headers), answer⟩ :: later) message := by
  obtain ⟨line, hline, front, earlier, later, rear, rfl, rfl, rest, hafter⟩ := callFor_run h hlog
  obtain ⟨more, r, hrun⟩ := hafter.complete calmAnswers
  have hsubmitted := submitted_of_served ⟨r, hrun⟩
  rw [List.append_assoc, List.cons_append] at hsubmitted
  unfold Submitted at hsubmitted
  cases hmessage : delivered loads repr settings true line with
  | none =>
    rw [hmessage] at hsubmitted
    have hnil : posts _ = [] := hsubmitted
    rw [posts_append] at hnil
    exact absurd (List.append_eq_nil_iff.mp hnil).2 (List.cons_ne_nil _ _)
  | some message =>
    rw [hmessage] at hsubmitted
    exact ⟨line, hline, message, front, earlier, later ++ more,
      (Option.filter_eq_some_iff.mp hmessage).1, rfl, hsubmitted⟩

/-- In every run, each POST to the worker with audio is the request of a message that has arrived.
Its text is strict base64, and decodes to the bytes that the daemon has returned for the audio of
this message before the POST. They are not empty, and at most 25 MiB. -/
theorem posted_audio_run {events : List (Timed Inbound.calls)} {t₀ : ℚ}
    {s : Connection.System Inbound.calls}
    (h : (System.start Inbound.calls t₀).run
      (Inbound.handleLine loads repr listGt settings worker) events = some s)
    {before after : List Inbound.calls.Event} {url : PyStr} {body : List (PyStr × Json)}
    {headers : List (PyStr × PyStr)}
    {answer : (Inbound.Op.worker (.post url body headers)).Answer}
    (hlog : s.log = before ++ ⟨.worker (.post url body headers), answer⟩ :: after) {text : PyStr}
    (htext : Json.lookup body "audio_base64" = .str text) :
    ∃ line ∈ linesOf events, ∃ message format data,
      Listener.accepted loads repr settings line = some message ∧
      FetchedBytes repr listGt settings before message format data ∧
      b64decode true text = .ok data ∧
      buildChatRequest message worker.settings (some ⟨text, format⟩) = .ok body := by
  obtain ⟨line, hline, message, front, earlier, later, haccepted, rfl, hhandled⟩ :=
    handled_of_post h hlog
  obtain ⟨format, data, hfetched, hdecoded, hbody⟩ := hhandled.audio htext
  obtain ⟨ref, result, hwants, hfetches, hdata⟩ := hfetched.fetched
  have hbefore : Fetches repr listGt settings (front ++ earlier) ref.id result :=
    hfetches.mono fun ev hev => List.mem_append_right _ hev
  exact ⟨line, hline, message, format, data, haccepted,
    ⟨⟨ref, result, hwants, hbefore, hdata⟩, hfetched.nonempty, hfetched.small⟩, hdecoded, hbody⟩

end

/-- A voice message in the group. -/
def voiceEnvelope : Json :=
  .obj (dict
    [("envelope", .obj (dict
      [("sourceUuid", .str (lit "8c1f")), ("timestamp", .int 1700000000000),
        ("dataMessage", .obj (dict
          [("groupInfo", .obj (dict [("groupId", .str (lit "Z3Jw"))])),
            ("attachments", .arr [.obj (dict
              [("id", .str (lit "a1")), ("contentType", .str (lit "audio/ogg"))])])]))]))])

/-- The JSON text of the envelope. -/
def voiceText : PyStr :=
  lit ("\x7b\"envelope\": \x7b\"sourceUuid\": \"8c1f\", \"timestamp\": 1700000000000, "
    ++ "\"dataMessage\": \x7b\"groupInfo\": \x7b\"groupId\": \"Z3Jw\"\x7d, "
    ++ "\"attachments\": [\x7b\"id\": \"a1\", \"contentType\": \"audio/ogg\"\x7d]\x7d\x7d\x7d")

/-- `json.loads` on this text. -/
def voiceLoads (s : PyStr) : Except PyError Json :=
  if s = voiceText then .ok voiceEnvelope else .error .jsonDecodeError

/-- An environment in which the daemon returns four bytes for the attachment. -/
def voiceAnswers : (op : Inbound.Op) → op.Answer
  | .client (.rpc (.post _ _ _)) =>
      (.ok ⟨200, .ok (.obj [(lit "result", .str (lit "T2dnUw=="))])⟩ : Except PyError Rpc.Response)
  | op => calmAnswers op

/-- The voice message arrives, and its calls are answered. -/
def voiceStream : List (Timed Inbound.calls) :=
  [(.consumer (.responded 200), 0),
    (.consumer (.line ⟨lit "data: " ++ voiceText, .ofRat 1700000000⟩), 1)]
    ++ List.replicate 3 (.consumer (.answered voiceAnswers), 2)

/-- The call posts this audio to the worker. -/
def postsAudio (text : PyStr) : Inbound.Op → Bool
  | .worker (.post _ body _) => (Json.lookup body "audio_base64").eqStr text
  | _ => false

/-- The audio of a voice note is posted as it was fetched. -/
theorem posted_audio_run_voice : ∃ s before url body headers answer after,
    (System.start Inbound.calls 0).run (Inbound.handleLine voiceLoads (fun _ => .ok [])
      (fun _ _ => .ok false) Routing.groupSettings groupWorker) voiceStream = some s ∧
    s.log = before ++ ⟨.worker (.post url body headers), answer⟩ :: after ∧
    Json.lookup body "audio_base64" = .str (lit "T2dnUw==") ∧
    ∃ line ∈ linesOf voiceStream, ∃ message format data,
      Listener.accepted voiceLoads (fun _ => .ok []) Routing.groupSettings line = some message ∧
      FetchedBytes (fun _ => .ok []) (fun _ _ => .ok false) Routing.groupSettings before message
        format data ∧
      b64decode true (lit "T2dnUw==") = .ok data ∧
      buildChatRequest message groupWorker.settings (some ⟨lit "T2dnUw==", format⟩) = .ok body := by
  have hany : ((System.start Inbound.calls 0).run (Inbound.handleLine voiceLoads (fun _ => .ok [])
      (fun _ _ => .ok false) Routing.groupSettings groupWorker) voiceStream).any (fun s =>
        s.log.any fun ev => postsAudio (lit "T2dnUw==") ev.1) = true := by decide +kernel
  obtain ⟨s, hrun, hlog⟩ := (Option.any_eq_true _ _).mp hany
  obtain ⟨⟨op, answer⟩, hmem, hposts⟩ := List.any_eq_true.mp hlog
  obtain ⟨before, after, hsplit⟩ := List.append_of_mem hmem
  cases op with
  | worker op =>
    cases op with
    | post url body headers =>
      have htext : Json.lookup body "audio_base64" = .str (lit "T2dnUw==") := eq_of_eqStr hposts
      exact ⟨s, before, url, body, headers, answer, after, hrun, hsplit, htext,
        posted_audio_run hrun hsplit htext⟩
    | sleep seconds => cases hposts
  | cacheIdentifiers number serviceId => cases hposts
  | client op => cases hposts

end SignalGateway.Proofs.Inbound
