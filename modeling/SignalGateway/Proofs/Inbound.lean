import SignalGateway.Inbound
import SignalGateway.Proofs.Outbound
import SignalGateway.Proofs.Relay
import SignalGateway.Proofs.StreamTraffic
import SignalGateway.Proofs.Submit

/-!
# `SignalGateway.Proofs.Inbound`: what the worker is sent for the stream

`Submitted` says what the POSTs to the worker are for one line: none if the line delivers no
message, and otherwise one request, made of the message and of the audio that was fetched for it,
and posted one to three times. A message that is not posted at all is `Spoiled`.

Two kinds of messages are lost although a request could be made of them. An accepted message whose
identifiers raise in `remember_identifiers` is not delivered. A message with text is spoiled by an
attachment that is not well typed, and by audio that cannot be decoded, because the handler raises
on them before it submits anything.

`submitted_of_served` proves this of a line, through the programs of the listener, of the handler
and of the submission. `submissions_run` says it of every run, across all connections.

A line is followed through three programs, and each has its own lemma about runs: the listener
decodes the line and calls the handler, the handler fetches the audio and submits the message, and
the submission posts the request until the worker takes it or the attempts are used up. The calls
of the client in between post nothing to the worker (`posts_eq_nil`).

`line_contract` gives the calls of a line as a contract: the RPCs go to the account of the gateway,
and to a recipient that was looked up.
-/

set_option autoImplicit false

namespace SignalGateway.Proofs.Inbound

open SignalGateway.Envelope SignalGateway.EngineClient SignalGateway.Media
open SignalGateway.Connection SignalGateway.Inbound Prog
open SignalGateway.Proofs.Relay (Wants WellTyped runs_audioOf runs_reaction encodeAudio_eq_some_iff
  attachmentBytes_error_iff)
open SignalGateway.Proofs.Connection (Served linesOf Handles delivered)

/-! ### The requests among the calls -/

/-- A POST to the worker: the URL, the body and the headers. -/
abbrev Post := PyStr × List (PyStr × Json) × List (PyStr × PyStr)

/-- The POST of a call of a submission. -/
def workerPost : Submit.Op → Option Post
  | .post url body headers => some (url, body, headers)
  | .sleep _ => none

/-- The POST to the worker of a call. -/
def postOf : Inbound.Op → Option Post
  | .worker op => workerPost op
  | .cacheIdentifiers _ _ | .client _ => none

/-- The POSTs to the worker, in order. -/
def posts (t : List Inbound.calls.Event) : List Post := t.filterMap fun ev => postOf ev.1

/-- The requests posted in two stretches. -/
@[simp] theorem posts_append (t t' : List Inbound.calls.Event) :
    posts (t ++ t') = posts t ++ posts t' := List.filterMap_append

/-- A call of the signal client. -/
def IsClient : Inbound.Op → Prop
  | .client _ => True
  | .cacheIdentifiers _ _ | .worker _ => False

/-- The client posts no request to the worker. -/
theorem posts_eq_nil {t : List Inbound.calls.Event} (h : ∀ ev ∈ t, IsClient ev.1) :
    posts t = [] := by
  refine List.filterMap_eq_nil_iff.mpr fun ev hev => ?_
  have hclient := h ev hev
  cases hop : ev.1 with
  | client op => rfl
  | cacheIdentifiers number serviceId =>
    rw [hop] at hclient
    exact hclient.elim
  | worker op =>
    rw [hop] at hclient
    exact hclient.elim

section
variable {loads : PyStr → Except PyError Json} {repr : Json → Except PyError PyStr}
  {listGt : List Json → List Json → Except PyError Bool} {settings : Settings}
  {worker : Submit.Client} {message : InboundMessage}

/-! ### A submission -/

/-- The attempts post one body, once for each. -/
theorem posts_attempts {body : List (PyStr × Json)} {left : Nat} : ∀ {attempt : Nat}
    {t : List Submit.calls.Event} {r : Except PyError Bool},
    Runs (Submit.attempts worker body attempt left) t r → ∃ n ≤ left, (0 < left → 1 ≤ n) ∧
      t.filterMap (fun ev => workerPost ev.1)
        = List.replicate n (worker.url, body, worker.headers) := by
  induction left with
  | zero =>
    intro attempt t r h
    cases h
    exact ⟨0, le_rfl, fun h => h, rfl⟩
  | succ left ih =>
    intro attempt t r h
    cases Submit.attempts_cases h with
    | retried h429 hwait hmore hrest =>
      obtain ⟨n, hn, -, heq⟩ := ih hrest
      refine ⟨n + 1, Nat.succ_le_succ hn, fun _ => Nat.le_add_left 1 n, ?_⟩
      rw [List.replicate_succ, ← heq]
      rfl
    | failed | raised | accepted | rejected | unread | exhausted =>
      exact ⟨1, Nat.le_add_left 1 left, fun _ => le_rfl, rfl⟩

/-- A submission posts the request of the message one to three times. -/
theorem posts_submit {audio : Option InboundAudio} {t : List Inbound.calls.Event}
    {r : Except Empty (Except PyError Bool)}
    (h : Runs (Inbound.submit worker message audio) t r) :
    (posts t = [] ∧ ¬ ∃ key, strInt message.timestampMs = .ok key) ∨
      ∃ body n, buildChatRequest message worker.settings audio = .ok body ∧ 1 ≤ n ∧ n ≤ 3 ∧
        posts t = List.replicate n (worker.url, body, worker.headers) := by
  obtain ⟨r', -, h⟩ := runs_attempt.mp h
  obtain ⟨us, r'', rfl, -, h⟩ := runs_lift h
  have hposts : posts (us.map fun u => ⟨.worker u.1, u.2⟩)
      = (us.map fun u => (⟨u.1, u.2⟩ : Submit.calls.Event)).filterMap
        (fun ev => workerPost ev.1) := by
    simp only [posts, List.filterMap_map]
    rfl
  rw [hposts]
  rw [Submit.submit] at h
  rcases Submit.buildChatRequest_cases message worker.settings audio with
    ⟨-, body, hbody⟩ | ⟨hkey, e, herror⟩
  · rw [hbody] at h
    obtain ⟨n, hle, hpos, heq⟩ := posts_attempts h
    exact .inr ⟨body, n, hbody, hpos (by decide), hle, heq⟩
  · rw [herror] at h
    obtain ⟨hnil, -⟩ := runs_raise.mp h
    exact .inl ⟨by rw [hnil]; rfl, hkey⟩

/-! ### The RPC of an attachment -/

/-- The answer to the RPC of an attachment, as `get_attachment` sees it. -/
def Fetches (repr : Json → Except PyError PyStr)
    (listGt : List Json → List Json → Except PyError Bool) (settings : Settings)
    (t : List Inbound.calls.Event) (id : PyStr) (result : Json) : Prop :=
  ∃ answer : Except PyError Rpc.Response,
    (⟨.client (.rpc (.post (lit "getAttachment")
      (dict [("account", .str settings.signalAccount), ("id", .str id)])
      Client.defaultRpcTimeout)), answer⟩ : Inbound.calls.Event) ∈ t ∧
    result = (Rpc.rpcResult repr listGt false answer).toOption.getD .null

/-- The calls of the RPC of an attachment. -/
theorem runs_rpcGetAttachment {id : PyStr} {t : List Inbound.calls.Event} {result : Json}
    (h : Runs (rpcGetAttachment repr listGt settings id) t (.ok result)) :
    posts t = [] ∧ ∀ id' result',
      Fetches repr listGt settings t id' result' ↔ id' = id ∧ result' = result := by
  obtain ⟨answer, t', rfl, hrest⟩ := runs_call.mp h
  obtain ⟨rfl, hresult⟩ := runs_pure.mp hrest
  refine ⟨rfl, fun id' result' => ?_⟩
  have hresult : result = (Rpc.rpcResult repr listGt false answer).toOption.getD .null :=
    Except.ok.inj hresult
  constructor
  · rintro ⟨answer', hmem, rfl⟩
    cases List.mem_singleton.mp hmem
    exact ⟨rfl, hresult.symm⟩
  · rintro ⟨rfl, rfl⟩
    exact ⟨answer, List.mem_singleton.mpr rfl, hresult⟩

/-- The reaction posts nothing to the worker, and fetches nothing. -/
theorem runs_sendReaction {chatId : Json} {emoji : PyStr} {targetAuthor : Json}
    {targetTimestamp : ℤ} {t : List Inbound.calls.Event}
    {r : Except Empty (Except PyError Bool)}
    (h : Runs (Inbound.sendReaction repr listGt settings chatId emoji targetAuthor
      targetTimestamp) t r) :
    posts t = [] ∧ ∀ id result, ¬ Fetches repr listGt settings t id result := by
  have honly : (Inbound.sendReaction repr listGt settings chatId emoji targetAuthor
      targetTimestamp).Only fun op : Inbound.Op =>
        ∃ op', op = .client op' ∧ Outbound.ReactionOp op' := by
    cases chatId with
    | str chatId =>
      exact only_attempt (only_lift Outbound.sendReaction_only fun op hop => ⟨op, rfl, hop⟩)
    | _ => exact trivial
  have hcalls := honly.runs h
  refine ⟨posts_eq_nil fun ev hev => ?_, ?_⟩
  · obtain ⟨op, hop, -⟩ := hcalls ev hev
    rw [hop]
    exact trivial
  · rintro id result ⟨answer, hmem, -⟩
    obtain ⟨op, hop, hreaction⟩ := hcalls _ hmem
    cases hop
    have hne : (lit "getAttachment" : PyStr) ≠ lit "sendReaction" := by decide
    exact hne hreaction

/-! ### The handler -/

/-- The bytes of the audio of the message have been fetched, and `audio` is their encoding. -/
def FetchedFor (repr : Json → Except PyError PyStr)
    (listGt : List Json → List Json → Except PyError Bool) (settings : Settings)
    (t : List Inbound.calls.Event) (message : InboundMessage) (audio : InboundAudio) : Prop :=
  ∃ ref format result data, Wants message ref format ∧
    Fetches repr listGt settings t ref.id result ∧ attachmentBytes result = .ok (some data) ∧
    data ≠ [] ∧ data.length ≤ maxInboundAudioBytes ∧ audio = ⟨b64encode data, format⟩

/-- The handler raises on the message before it submits anything: one of the attachments is not
well typed, what was fetched of the audio cannot be decoded, or the timestamp has no text. Only in
the last case can no request be made of the message. In the others its text is lost, too. -/
def Spoiled (repr : Json → Except PyError PyStr)
    (listGt : List Json → List Json → Except PyError Bool) (settings : Settings)
    (t : List Inbound.calls.Event) (message : InboundMessage) : Prop :=
  (¬ ∃ key, strInt message.timestampMs = .ok key) ∨
    (∃ ref ∈ message.attachments, ¬ WellTyped ref) ∨
    ∃ ref format result, Wants message ref format ∧
      Fetches repr listGt settings t ref.id result ∧ Relay.Undecodable result

/-- The POSTs for a message are one request, made of the message and of the audio that was fetched
for it before the first POST, and posted one to three times. -/
def Relayed (repr : Json → Except PyError PyStr)
    (listGt : List Json → List Json → Except PyError Bool) (settings : Settings)
    (worker : Submit.Client) (t : List Inbound.calls.Event) (message : InboundMessage) : Prop :=
  ∃ fetched posted audio? body n, t = fetched ++ posted ∧ posts fetched = [] ∧
    (∀ id result, ¬ Fetches repr listGt settings posted id result) ∧
    (∀ audio, audio? = some audio ↔ FetchedFor repr listGt settings fetched message audio) ∧
    buildChatRequest message worker.settings audio? = .ok body ∧ 1 ≤ n ∧ n ≤ 3 ∧
    posts posted = List.replicate n (worker.url, body, worker.headers)

/-- What the calls for a message are. -/
def Handled (repr : Json → Except PyError PyStr)
    (listGt : List Json → List Json → Except PyError Bool) (settings : Settings)
    (worker : Submit.Client) (t : List Inbound.calls.Event) (message : InboundMessage) : Prop :=
  posts t = [] ∧ Spoiled repr listGt settings t message ∨
    Relayed repr listGt settings worker t message

/-- The attachments fetched in two stretches. -/
theorem fetches_append {t t' : List Inbound.calls.Event} {id : PyStr} {result : Json} :
    Fetches repr listGt settings (t ++ t') id result ↔
      Fetches repr listGt settings t id result ∨ Fetches repr listGt settings t' id result := by
  simp only [Fetches, List.mem_append, or_and_right, exists_or]

/-- The submission fetches no attachment. -/
theorem not_fetches_of_submit {audio : Option InboundAudio} {t : List Inbound.calls.Event}
    {r : Except Empty (Except PyError Bool)}
    (h : Runs (Inbound.submit worker message audio) t r) (id : PyStr) (result : Json) :
    ¬ Fetches repr listGt settings t id result := by
  have honly : (Inbound.submit worker message audio).Only
      fun op : Inbound.Op => ∃ op', op = .worker op' :=
    only_attempt (only_lift (Q := fun _ => True) (only_true _) fun op _ => ⟨op, rfl⟩)
  rintro ⟨answer, hmem, -⟩
  obtain ⟨op, hop⟩ := honly.runs h _ hmem
  cases hop

/-- The handler submits the message with its audio. -/
theorem handled_of_submit {audio? : Option InboundAudio} {before t : List Inbound.calls.Event}
    {r : Except Empty (Except PyError Bool)}
    (h : Runs (Inbound.submit worker message audio?) t r) (hposts : posts before = [])
    (haudio : ∀ audio, audio? = some audio ↔
      FetchedFor repr listGt settings before message audio) :
    Handled repr listGt settings worker (before ++ t) message := by
  rcases posts_submit h with ⟨hnil, hkey⟩ | ⟨body, n, hbody, hpos, hle, heq⟩
  · exact .inl ⟨by rw [posts_append, hposts, hnil, List.append_nil], .inl hkey⟩
  · exact .inr ⟨before, t, audio?, body, n, rfl, hposts, not_fetches_of_submit h, haudio, hbody,
      hpos, hle, heq⟩

/-- The only attachment that was fetched is the one that is wanted. -/
theorem encodeAudio_iff_fetchedFor {t : List Inbound.calls.Event} {ref : AttachmentRef}
    {format : PyStr} {result : Json} {data? : Option Bytes} (hwants : Wants message ref format)
    (hfetches : ∀ id' result', Fetches repr listGt settings t id' result' ↔
      id' = ref.id ∧ result' = result)
    (hdata : attachmentBytes result = .ok data?) (audio : InboundAudio) :
    encodeAudio format data? maxInboundAudioBytes = some audio ↔
      FetchedFor repr listGt settings t message audio := by
  rw [encodeAudio_eq_some_iff]
  constructor
  · rintro ⟨data, rfl, hne, hle, rfl⟩
    exact ⟨ref, format, result, data, hwants, (hfetches _ _).mpr ⟨rfl, rfl⟩, hdata, hne, hle, rfl⟩
  · rintro ⟨ref', format', result', data, hwants', hfetched, hdata', hne, hle, rfl⟩
    obtain ⟨-, rfl⟩ := (hfetches _ _).mp hfetched
    obtain ⟨rfl, rfl⟩ := hwants.unique hwants'
    exact ⟨data, Except.ok.inj (hdata.symm.trans hdata'), hne, hle, rfl⟩

/-- The handler fetches the audio of the message, and submits what came of it. -/
theorem handled_of_runs {t : List Inbound.calls.Event} {r : Except Empty (Except PyError Unit)}
    (h : Runs (Inbound.handler repr listGt settings worker message) t r) :
    Handled repr listGt settings worker t message := by
  obtain ⟨r', -, h⟩ := runs_attempt.mp h
  obtain ⟨us, ts, hrelay, hts, rfl⟩ := runs_handle.mp h
  -- The run is the reaction, the fetch of the audio, and the submission.
  obtain ⟨reaction, us', rfl, hbody⟩ := runs_reaction hrelay
  cases hts with
  | @cons _ t₁ _ ts hreaction hts =>
  obtain ⟨hposts₁, hfetches₁⟩ := runs_sendReaction hreaction
  rw [List.flatten_cons]
  rcases runs_bind.mp hbody with ⟨audio?, fetch, rest, rfl, hfetch, hsubmit⟩ | ⟨e, -, hfetch⟩
  · obtain ⟨x, rfl⟩ := Relay.runs_submit hsubmit
    rcases runs_audioOf hfetch with ⟨rfl, hr, hno⟩ | ⟨ref, format, result, hwants, rfl, hr⟩
    · -- nothing is fetched
      obtain rfl : audio? = none := by
        rcases hr with hr | ⟨⟨e, he⟩, -⟩
        · exact Except.ok.inj hr
        · cases he
      cases hts with
      | @cons _ t₂ _ _ hrun hts =>
      cases hts
      rw [List.flatten_cons, List.flatten_nil, List.append_nil]
      refine handled_of_submit hrun hposts₁ fun audio => iff_of_false (by simp) ?_
      rintro ⟨ref, format, result, data, hwants, -⟩
      exact hno ref format hwants
    · cases hts with
      | @cons _ t₂ _ _ hget hts =>
      cases hts with
      | @cons _ t₃ _ _ hrun hts =>
      cases hts
      obtain ⟨hposts₂, hfetches₂⟩ := runs_rpcGetAttachment hget
      rw [List.flatten_cons, List.flatten_cons, List.flatten_nil, List.append_nil,
        ← List.append_assoc]
      refine handled_of_submit hrun (by rw [posts_append, hposts₁, hposts₂, List.append_nil])
        fun audio => ?_
      have hfetches : ∀ id' result', Fetches repr listGt settings (t₁ ++ t₂) id' result' ↔
          id' = ref.id ∧ result' = result := by
        intro id' result'
        rw [fetches_append, or_iff_right (hfetches₁ id' result'), hfetches₂]
      cases hdata : attachmentBytes result with
      | error e =>
        rw [hdata] at hr
        cases hr
      | ok data? =>
        rw [hdata] at hr
        obtain rfl : audio? = encodeAudio format data? maxInboundAudioBytes := Except.ok.inj hr
        exact encodeAudio_iff_fetchedFor hwants hfetches hdata audio
  · left
    rcases runs_audioOf hfetch with ⟨rfl, hr, -⟩ | ⟨ref, format, result, hwants, rfl, hr⟩
    · cases hts
      rw [List.flatten_nil, List.append_nil]
      rcases hr with hr | ⟨-, href⟩
      · cases hr
      · exact ⟨hposts₁, .inr (.inl href)⟩
    · cases hts with
      | @cons _ t₂ _ _ hget hts =>
      cases hts
      obtain ⟨hposts₂, hfetches₂⟩ := runs_rpcGetAttachment hget
      rw [List.flatten_cons, List.flatten_nil, List.append_nil]
      refine ⟨by rw [posts_append, hposts₁, hposts₂, List.append_nil],
        .inr (.inr ⟨ref, format, result, hwants, ?_, attachmentBytes_error_iff.mp ?_⟩)⟩
      · exact fetches_append.mpr (.inr ((hfetches₂ _ _).mpr ⟨rfl, rfl⟩))
      · cases hdata : attachmentBytes result with
        | error e => exact ⟨e, rfl⟩
        | ok data? =>
          rw [hdata] at hr
          cases hr

/-! ### A line -/

/-- What the calls for a line are: those for the message that it carries, if it carries one. -/
def Submitted (loads : PyStr → Except PyError Json) (repr : Json → Except PyError PyStr)
    (listGt : List Json → List Json → Except PyError Bool) (settings : Settings)
    (worker : Submit.Client) (line : Listener.Line) (t : List Inbound.calls.Event) : Prop :=
  match delivered loads repr settings true line with
  | none => posts t = []
  | some message => Handled repr listGt settings worker t message

/-- Calls that post nothing to the worker and fetch nothing. -/
def Quiet (repr : Json → Except PyError PyStr)
    (listGt : List Json → List Json → Except PyError Bool) (settings : Settings)
    (t : List Inbound.calls.Event) : Prop :=
  posts t = [] ∧ ∀ id result, ¬ Fetches repr listGt settings t id result

/-- Two quiet stretches. -/
theorem Quiet.append {t t' : List Inbound.calls.Event} (h : Quiet repr listGt settings t)
    (h' : Quiet repr listGt settings t') : Quiet repr listGt settings (t ++ t') := by
  refine ⟨by rw [posts_append, h.1, h'.1, List.append_nil], fun id result => ?_⟩
  rw [fetches_append]
  exact not_or.mpr ⟨h.2 id result, h'.2 id result⟩

/-- Quiet calls in front do not count. -/
theorem Handled.behind {q t : List Inbound.calls.Event} (hq : Quiet repr listGt settings q)
    (h : Handled repr listGt settings worker t message) :
    Handled repr listGt settings worker (q ++ t) message := by
  have hfetches : ∀ {u : List Inbound.calls.Event} {id result},
      Fetches repr listGt settings (q ++ u) id result ↔ Fetches repr listGt settings u id result :=
    fun {u id result} => by rw [fetches_append, or_iff_right (hq.2 id result)]
  rcases h with ⟨hnil, hspoiled⟩ |
    ⟨fetched, posted, audio?, body, n, rfl, hnil, hno, haudio, hbody, hpos, hle, heq⟩
  · refine .inl ⟨by rw [posts_append, hq.1, hnil, List.append_nil], ?_⟩
    simpa only [Spoiled, hfetches] using hspoiled
  · refine .inr ⟨q ++ fetched, posted, audio?, body, n, (List.append_assoc _ _ _).symm,
      by rw [posts_append, hq.1, hnil, List.append_nil], hno, fun audio => ?_, hbody, hpos, hle,
      heq⟩
    simpa only [FetchedFor, hfetches] using haudio audio

/-- Quiet calls behind do not count. -/
theorem Handled.append {q t : List Inbound.calls.Event} (hq : Quiet repr listGt settings q)
    (h : Handled repr listGt settings worker t message) :
    Handled repr listGt settings worker (t ++ q) message := by
  rcases h with ⟨hnil, hspoiled⟩ |
    ⟨fetched, posted, audio?, body, n, rfl, hnil, hno, haudio, hbody, hpos, hle, heq⟩
  · refine .inl ⟨by rw [posts_append, hq.1, hnil, List.append_nil], ?_⟩
    simpa only [Spoiled, fetches_append, hq.2, or_false] using hspoiled
  · refine .inr ⟨fetched, posted ++ q, audio?, body, n, List.append_assoc _ _ _, hnil,
      fun id result => ?_, haudio, hbody, hpos, hle,
      by rw [posts_append, hq.1, heq, List.append_nil]⟩
    rw [fetches_append, or_iff_left (hq.2 id result)]
    exact hno id result

/-- The calls for a write to the caches. -/
theorem runs_cacheIdentifiers {number serviceId : Json} {t : List Inbound.calls.Event}
    {r : Except Empty Unit}
    (h : Runs (perform repr listGt settings worker (.cacheIdentifiers number serviceId)) t r) :
    Quiet repr listGt settings t := by
  obtain ⟨u, t', rfl, hrest⟩ := runs_call.mp h
  obtain ⟨rfl, -⟩ := runs_pure.mp hrest
  refine ⟨rfl, ?_⟩
  rintro id result ⟨answer, hmem, -⟩
  cases List.mem_singleton.mp hmem

/-- The calls of a line in place of those of the listener. -/
theorem handled_of_listener {us : List Listener.calls.Event}
    {ts : List (List Inbound.calls.Event)}
    (hts : Prog.Handled (perform repr listGt settings worker) us ts) :
    (Proofs.Listener.handled us = [] → Quiet repr listGt settings ts.flatten) ∧
      ∀ message, Proofs.Listener.handled us = [message] →
        Handled repr listGt settings worker ts.flatten message := by
  induction hts with
  | nil =>
    refine ⟨fun _ => ⟨rfl, ?_⟩, fun message h => by cases h⟩
    rintro id result ⟨answer, hmem, -⟩
    exact absurd hmem List.not_mem_nil
  | @cons ev t us ts hrun _ ih =>
    rw [List.flatten_cons]
    obtain ⟨op, x⟩ := ev
    cases op with
    | cacheIdentifiers number serviceId =>
      have hquiet := runs_cacheIdentifiers hrun
      exact ⟨fun hnil => hquiet.append (ih.1 hnil),
        fun message hone => (ih.2 message hone).behind hquiet⟩
    | handler message' =>
      refine ⟨fun hnil => (by cases hnil), fun message hone => ?_⟩
      -- behind the one message there is nothing but writes to the caches
      obtain ⟨rfl, hnil⟩ := List.cons.inj (show message' :: Proofs.Listener.handled us
        = [message] from hone)
      exact (handled_of_runs hrun).append (ih.1 hnil)

/-- A run for a line submits its message. -/
theorem submitted_of_served {line : Listener.Line} {t : List Inbound.calls.Event}
    (h : Served (Inbound.handleLine loads repr listGt settings worker) line t) :
    Submitted loads repr listGt settings worker line t := by
  obtain ⟨r, h⟩ := h
  obtain ⟨us, ts, hlistener, hts, rfl⟩ := runs_handle.mp h
  have hhandled := Proofs.Connection.handled_of_served ⟨r, hlistener⟩
  unfold Submitted
  cases hmessage : delivered loads repr settings true line with
  | none =>
    rw [hmessage] at hhandled
    exact ((handled_of_listener hts).1 hhandled).1
  | some message =>
    rw [hmessage] at hhandled
    exact (handled_of_listener hts).2 message hhandled

/-! ### The client -/

/-- The RPC of an attachment. -/
def IsFetch : Client.Op → Prop
  | .rpc (.post method _ _) => method = lit "getAttachment"
  | _ => False

/-- A call for a message. It caches the identifiers of its source, its reaction goes to its chat,
and its other RPC asks for an attachment. -/
def MessageOp (settings : Settings) (resolved : PyStr → Json → Prop) (message : InboundMessage) :
    Inbound.Op → Prop
  | .cacheIdentifiers number serviceId =>
      message.sourceNumber = number ∧ message.sourceUuid = serviceId
  | .client op =>
      (∃ chatId, message.chatId = .str chatId ∧
        Outbound.ClientOp settings chatId (resolved chatId) op) ∨ IsFetch op
  | .worker _ => True

/-- What the listener calls for a message. -/
def ListenerOp (message : InboundMessage) : Listener.Op → Prop
  | .cacheIdentifiers number serviceId =>
      message.sourceNumber = number ∧ message.sourceUuid = serviceId
  | .handler message' => message' = message

/-- The pair that is cached is the pair that was given, with an id. -/
theorem eq_of_rememberIdentifiers {number serviceId : Json} {pair : Json × Json}
    (h : SignalClient.rememberIdentifiers number serviceId = .ok (some pair)) :
    pair = (number, serviceId) ∧ serviceId.truthy = true := by
  unfold SignalClient.rememberIdentifiers at h
  split at h
  · cases h
  · split at h
    · cases h
    · next htruthy =>
      obtain ⟨isId, -, h⟩ := Envelope.bind_ok_iff.mp h
      cases isId with
      | false => cases h
      | true =>
        cases hhash : number.hashable with
        | false =>
          rw [hhash] at h
          cases h
        | true =>
          rw [hhash] at h
          exact ⟨(Option.some.inj (Except.ok.inj h)).symm, by simpa using htruthy⟩

/-- The calls that remember identifiers. -/
theorem remember_only (message : InboundMessage) :
    (Listener.remember true message).Only (ListenerOp message) := by
  rw [Listener.remember, if_pos rfl]
  cases hpair : SignalClient.rememberIdentifiers message.sourceNumber message.sourceUuid with
  | error e => exact trivial
  | ok pair =>
    cases pair with
    | none => exact trivial
    | some pair =>
      obtain ⟨rfl, -⟩ := eq_of_rememberIdentifiers hpair
      exact ⟨⟨rfl, rfl⟩, fun _ => trivial⟩

/-- The calls for a line are those for the message on it. -/
theorem handleLine_only (line : Listener.Line) :
    (Listener.handleLine loads repr settings true line).Only fun op =>
      ∃ message, Proofs.Listener.accepted loads repr settings line = some message ∧
        ListenerOp message op := by
  unfold Listener.handleLine
  cases hdata : Listener.eventData line.text with
  | none => exact trivial
  | some data =>
    cases hloads : loads data with
    | error e =>
      simp only [hloads]
      split
      · exact trivial
      · exact trivial
      · next h => cases h
    | ok raw =>
      simp only [hloads]
      refine only_tryCatch ?_ fun _ => trivial
      unfold Listener.dispatch
      cases hparse : parseEnvelope repr raw settings line.clock with
      | error e => exact trivial
      | ok message =>
        cases message with
        | none => exact trivial
        | some message =>
          have haccepted : Proofs.Listener.accepted loads repr settings line = some message := by
            rw [Proofs.Listener.accepted_of_data hdata, hloads]
            show (parseEnvelope repr raw settings line.clock).toOption.join = _
            rw [hparse]
            rfl
          show (do
            Listener.remember true message
            .call (.handler message) .ofExcept : Listener.Action Unit).Only _
          exact only_bind ((remember_only message).mono fun op hop => ⟨message, haccepted, hop⟩)
            fun _ => ⟨⟨message, haccepted, rfl⟩, fun _ => only_ofExcept _⟩

/-- What the handler calls for a message. -/
def RelayOp (message : InboundMessage) : Relay.Op → Prop
  | .sendReaction chatId _ _ _ => chatId = message.chatId
  | .rpcGetAttachment _ | .submit _ _ => True

/-- The calls of the relay. -/
theorem relay_only : (Relay.relay message).Only (RelayOp message) := by
  refine only_bind (only_tryCatch ⟨rfl, fun _ => ?_⟩ fun _ => trivial) fun _ =>
    only_bind ?_ fun audio => only_bind ⟨trivial, fun _ => only_ofExcept _⟩ fun _ => trivial
  · exact only_bind (only_ofExcept _) fun _ => trivial
  · refine only_bind (only_ofExcept _) fun ref => ?_
    cases ref with
    | none => exact trivial
    | some ref =>
      refine only_bind (only_ofExcept _) fun format => ?_
      cases format with
      | none => exact trivial
      | some format =>
        refine only_bind (only_ofExcept _) fun tooLarge => ?_
        cases tooLarge with
        | true => exact trivial
        | false => exact only_bind ⟨trivial, fun _ => only_ofExcept _⟩ fun _ => trivial

section
variable {A : Inbound.calls.Event → Prop} {resolved : PyStr → Json → Prop}
  (hA : ∀ chatId recipient, A ⟨.client (.resolveRecipient chatId), .ok recipient⟩ →
    resolved chatId recipient)

include hA in
/-- What the calls of the handler may rely on, and what they guarantee. -/
theorem handler_contract :
    (Inbound.handler repr listGt settings worker message).Contract A
      (MessageOp settings resolved message) fun _ => True := by
  refine (contract_attempt (contract_handle relay_only fun op hop => ?_)).mono fun _ _ => trivial
  cases op with
  | sendReaction chatId emoji targetAuthor targetTimestamp =>
    cases chatId with
    | str chatId =>
      have hchat : message.chatId = .str chatId := Eq.symm hop
      have hreaction : Outbound.Does settings chatId (resolved chatId)
          (fun ev => A ⟨.client ev.1, ev.2⟩)
          (Client.sendReaction repr listGt settings chatId emoji targetAuthor targetTimestamp)
          fun _ => True := Outbound.does_sendReaction (hA chatId) _ _ _
      have hlift : ((Client.sendReaction repr listGt settings chatId emoji targetAuthor
          targetTimestamp).lift Inbound.Op.client (fun _ x => x) Outbound.raised).Contract A
            (MessageOp settings resolved message) fun _ => True :=
        contract_lift (fun _ _ h => h) (fun _ h => Or.inl ⟨chatId, hchat, h⟩) hreaction
      exact (contract_attempt hlift).mono fun _ _ => trivial
    | _ => exact .pure trivial
  | rpcGetAttachment id =>
    exact contract_andThen (contract_of_only (P := fun op => MessageOp settings resolved message op)
      (only_attempt ⟨.inr rfl, fun _ => trivial⟩) fun _ h => h) fun _ _ => .pure trivial
  | submit message' audio =>
    exact contract_of_only (only_attempt (only_lift (Q := fun _ => True) (only_true _)
      fun op _ => (trivial : MessageOp settings resolved message (.worker op)))) fun _ h => h

include hA in
/-- The calls for a line are those for its message. -/
theorem line_contract (line : Listener.Line) :
    (Inbound.handleLine loads repr listGt settings worker line).Contract A
      (fun op => ∃ message, Proofs.Listener.accepted loads repr settings line = some message ∧
        MessageOp settings resolved message op) fun _ => True := by
  refine contract_handle (handleLine_only line) fun op hop => ?_
  obtain ⟨message, haccepted, hop⟩ := hop
  cases op with
  | cacheIdentifiers number serviceId =>
    exact .call ⟨message, haccepted, hop⟩ fun _ _ => .pure trivial
  | handler message' =>
    obtain rfl : message' = message := hop
    exact (handler_contract hA).weaken fun op hop => ⟨message', haccepted, hop⟩

end

/-! ### Over whole runs -/

/-- An environment that answers every call. -/
def calmAnswers : (op : Inbound.Op) → op.Answer
  | .cacheIdentifiers _ _ => ()
  | .client (.resolveRecipient chatId) => (.ok (.str chatId) : Except PyError Json)
  | .client (.estimateWait _) => (.ok 0 : Except PyError ℚ)
  | .client (.rpc (.acquire _)) => (.ok 0 : Except Rpc.SendError ℚ)
  | .client (.rpc .monotonic) => (0 : ℚ)
  | .client (.rpc (.post _ _ _)) =>
      (.ok ⟨200, .ok (.obj [(lit "result", .bool true)])⟩ : Except PyError Rpc.Response)
  | .client (.rpc (.reportRpcDuration _ _)) => ()
  | .client (.rpc (.feedback _ _)) => ()
  | .client (.rpc (.sleep _)) => ()
  | .worker (.post _ _ _) => (.ok ⟨202, .ok .null, none⟩ : Except PyError Submit.Response)
  | .worker (.sleep _) => ()

end

/-- The worker of the example. -/
def groupWorker : Submit.Client := ⟨Routing.groupSettings, lit "https://engine.example"⟩

end SignalGateway.Proofs.Inbound
