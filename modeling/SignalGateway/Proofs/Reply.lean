import SignalGateway.Proofs.Delivery

/-!
# `SignalGateway.Proofs.Reply`: the verdict on a reply

`runs_dispatchComplete` splits a delivery that returns into the setup, the three parts and
the reaction, and `raises_dispatchComplete` says where the errors of a delivery come from.
`dispatchCallback_verdict` reads the verdict off the calls alone.

`Parts` is the shape of a run that returns: workspace, voice note, attachments, text, reaction. Its
lemmas say which calls are in which part, so that a statement about one kind of call is proved in
one part only (`sends_eq`, `sendVoiceNote_mem`, `sendAttachments_mem`).

The errors are treated apart. `Raises F p` says that `p` raises errors of the kind `F` only, and
there is one lemma for each function of the delivery.
-/

set_option autoImplicit false

namespace SignalGateway.Proofs.Delivery

open SignalGateway.Delivery SignalGateway.Dispatch Prog

variable {netlocOk : PyStr → Bool} {settings : Settings} {payload : CallbackPayload}
  {ownsClient : Bool}

/-! ### The order of a delivery -/

/-- The reaction step always ends, and performs nothing else. -/
theorem runs_react {emoji : PyStr} {t : List calls.Event} {r : Except PyError Unit}
    (h : Runs (react payload emoji) t r) :
    r = .ok () ∧ ∀ ev ∈ t, ∃ timestamp,
      ev.1 = .sendReaction (recipient payload) emoji payload.userId timestamp := by
  unfold react at h
  split at h
  · cases h
    exact ⟨rfl, fun ev hev => absurd hev List.not_mem_nil⟩
  · next timestamp _ =>
    obtain ⟨x, t', rfl, hx⟩ := runs_call.mp h
    have hrest : t' = [] ∧ r = .ok () := by
      cases x <;> exact runs_pure.mp hx
    obtain ⟨rfl, rfl⟩ := hrest
    refine ⟨rfl, fun ev hev => ⟨timestamp, ?_⟩⟩
    rw [List.mem_singleton.mp hev]

/-- A run with a workspace is a run of the body between the calls for the workspace. -/
theorem runs_withWorkspace {α : Type} {body : Action α} {t : List calls.Event} {a : α}
    (h : Runs ((withWorkspace body).tryFinally (closeClient ownsClient)) t (.ok a)) :
    ∃ front inner back, t = front ++ inner ++ back ∧ Runs body inner (.ok a) ∧
      ∀ ev ∈ front ++ back, SetupOp ev.1 := by
  obtain ⟨t₁, t₂, r₁, r₂, rfl, hwith, hclose, hr⟩ := runs_tryFinally.mp h
  -- what returns cannot have had an error in its cleanup
  have hr₁ : r₁ = .ok a := by
    cases r₂ with
    | ok u => exact hr.symm
    | error e => cases hr
  subst hr₁
  have hback : ∀ ev ∈ t₂, SetupOp ev.1 := by
    refine Only.runs (p := closeClient ownsClient) ?_ hclose
    unfold closeClient
    split
    · exact ⟨.inr (.inr rfl), fun _ => only_ofExcept _⟩
    · exact trivial
  obtain ⟨u, t₃, t₄, rfl, hopen, hbody⟩ := hwith.split
  have hfront : ∀ ev ∈ t₃, SetupOp ev.1 :=
    Only.runs (p := .call .openWorkspace .ofExcept) ⟨.inl rfl, fun _ => only_ofExcept _⟩ hopen
  obtain ⟨t₅, t₆, r₃, r₄, rfl, hinner, hremove, hr'⟩ := runs_tryFinally.mp hbody
  have hmiddle : ∀ ev ∈ t₆, SetupOp ev.1 :=
    Only.runs (p := .call .closeWorkspace fun _ => .pure ())
      ⟨.inr (.inl rfl), fun _ => trivial⟩ hremove
  have hr₃ : r₃ = .ok a := by
    cases r₄ with
    | ok u => exact hr'.symm
    | error e => cases hr'
  subst hr₃
  refine ⟨t₃, t₅, t₆ ++ t₂, by simp only [List.append_assoc], hinner, ?_⟩
  intro ev hev
  simp only [List.mem_append] at hev
  rcases hev with hev | hev | hev
  · exact hfront ev hev
  · exact hmiddle ev hev
  · exact hback ev hev

/-- A reply without media is a reply whose media parts do nothing. -/
theorem deliverMedia_of_none {chatId : PyStr}
    (h : ¬ (hasVoice payload || !payload.attachments.isEmpty) = true) :
    deliverMedia netlocOk settings payload chatId = (do
      let (sent, expected) ← sendTextChunks payload.text settings chatId
      return { sent, expected }) := by
  rw [Bool.or_eq_true, not_or, Bool.not_eq_true, Bool.not_eq_true, Bool.not_eq_false'] at h
  simp only [deliverMedia, voicePart, attachmentPart, h.1, h.2, if_true]
  rfl

/-- The parts of the calls of a delivery. -/
structure Parts (netlocOk : PyStr → Bool) (settings : Settings) (payload : CallbackPayload)
    (reply : Reply) (t : List calls.Event) where
  front : List calls.Event
  voice : List calls.Event
  text : List calls.Event
  attachments : List calls.Event
  back : List calls.Event
  reaction : List calls.Event
  eq : t = front ++ (voice ++ text ++ attachments) ++ back ++ reaction
  setup : ∀ ev ∈ front ++ back, SetupOp ev.1
  runs_voice : Runs (voicePart netlocOk settings payload (recipient payload)) voice
    (.ok reply.voiceOk)
  runs_text : Runs (textPart settings payload (recipient payload) reply.voiceOk) text
    (.ok (reply.sent, reply.expected))
  runs_attachments : Runs (attachmentPart netlocOk settings payload (recipient payload))
    attachments (.ok reply.attachmentsOk)
  runs_reaction : Runs (react payload completeReaction) reaction (.ok ())

/-- The media of a reply, between setup steps and before the reaction. -/
theorem parts_of_deliverMedia {front inner back reaction : List calls.Event} {reply : Reply}
    (hsetup : ∀ ev ∈ front ++ back, SetupOp ev.1)
    (hmedia : Runs (deliverMedia netlocOk settings payload (recipient payload)) inner (.ok reply))
    (hreact : Runs (react payload completeReaction) reaction (.ok ())) :
    Nonempty (Parts netlocOk settings payload reply (front ++ inner ++ back ++ reaction)) := by
  obtain ⟨voiceOk, voice, t₁, rfl, hvoice, hrest⟩ := hmedia.split
  obtain ⟨⟨sent, expected⟩, text, t₂, rfl, htext, hrest⟩ := hrest.split
  obtain ⟨attachmentsOk, attachments, t₃, rfl, hatts, hret⟩ := hrest.split
  cases hret
  exact ⟨⟨front, voice, text, attachments, back, reaction,
    by simp only [List.append_assoc, List.append_nil], hsetup, hvoice, htext,
    hatts, hreact⟩⟩

/-- A delivery that returns has done all parts, and returns the verdict on their reports. -/
theorem runs_dispatchComplete {t : List calls.Event} {b : Bool}
    (h : Runs (dispatchComplete netlocOk settings ownsClient payload) t (.ok b)) :
    ∃ reply, Nonempty (Parts netlocOk settings payload reply t) ∧
      b = (replyOk payload reply && reply.attachmentsOk) := by
  unfold dispatchComplete at h
  split at h
  · obtain ⟨reply, t₁, t₂, rfl, hmedia, hrest⟩ := h.split
    obtain ⟨u, t₃, t₄, rfl, hreact, hret⟩ := hrest.split
    obtain ⟨rfl, hb⟩ := runs_pure.mp hret
    obtain ⟨front, inner, back, rfl, hinner, hsetup⟩ := runs_withWorkspace hmedia
    rw [List.append_nil]
    exact ⟨reply, parts_of_deliverMedia hsetup hinner hreact, Except.ok.inj hb⟩
  · next hnone =>
    obtain ⟨⟨sent, expected⟩, t₁, t₂, rfl, htext, hrest⟩ := h.split
    obtain ⟨u, t₃, t₄, rfl, hreact, hret⟩ := hrest.split
    -- without media, the text is what `deliverMedia` would send
    have hmedia : Runs (deliverMedia netlocOk settings payload (recipient payload)) t₁
        (.ok { sent, expected }) := by
      rw [deliverMedia_of_none hnone]
      exact runs_bind.mpr (.inl ⟨_, t₁, [], (List.append_nil _).symm, htext, .pure _⟩)
    -- a reply without chunks counts as delivered
    have hend : t₄ = [] ∧ b = (replyOk payload { sent, expected } && true) := by
      have hvoice : hasVoice payload = false := by
        rw [Bool.or_eq_true, not_or] at hnone
        exact Bool.not_eq_true _ ▸ hnone.1
      have hret : Runs (if expected = 0 then return true
          else return replyOk payload { sent, expected } : Action Bool) t₄ (.ok b) := hret
      split at hret
      · next hzero =>
        cases hret
        refine ⟨rfl, ?_⟩
        simp [replyOk, hvoice, hzero]
      · cases hret
        exact ⟨rfl, (Bool.and_true _).symm⟩
    obtain ⟨rfl, hb⟩ := hend
    have hparts : Nonempty (Parts netlocOk settings payload { sent, expected }
        ([] ++ t₁ ++ [] ++ t₃)) :=
      parts_of_deliverMedia (fun ev hev => absurd hev List.not_mem_nil) hmedia hreact
    rw [List.nil_append, List.append_nil] at hparts
    rw [List.append_nil]
    exact ⟨_, hparts, hb⟩

/-! ### What is seen of the parts -/

namespace Parts

variable {reply : Reply} {t : List calls.Event}

/-- The calls before the reaction step. -/
def before (p : Parts netlocOk settings payload reply t) : List calls.Event :=
  p.front ++ (p.voice ++ p.text ++ p.attachments) ++ p.back

/-- Where an event before the reaction step comes from. -/
theorem cases_before (p : Parts netlocOk settings payload reply t) : ∀ ev ∈ p.before,
    SetupOp ev.1 ∨ (ev ∈ p.voice ∧ VoiceOp (recipient payload) ev.1) ∨
      (ev ∈ p.text ∧ TextOp (recipient payload) ev.1) ∨
      (ev ∈ p.attachments ∧ AttachmentOp (recipient payload) ev.1) := by
  intro ev hev
  simp only [before, List.mem_append] at hev
  rcases hev with (hev | (hev | hev) | hev) | hev
  · exact .inl (p.setup ev (List.mem_append_left _ hev))
  · exact .inr (.inl ⟨hev, voicePart_only.runs p.runs_voice ev hev⟩)
  · exact .inr (.inr (.inl ⟨hev, textPart_only.runs p.runs_text ev hev⟩))
  · exact .inr (.inr (.inr ⟨hev, attachmentPart_only.runs p.runs_attachments ev hev⟩))
  · exact .inl (p.setup ev (List.mem_append_right _ hev))

/-- Where an event of a delivery comes from. -/
theorem cases (p : Parts netlocOk settings payload reply t) : ∀ ev ∈ t,
    (SetupOp ev.1 ∨ (ev ∈ p.voice ∧ VoiceOp (recipient payload) ev.1) ∨
      (ev ∈ p.text ∧ TextOp (recipient payload) ev.1) ∨
      (ev ∈ p.attachments ∧ AttachmentOp (recipient payload) ev.1)) ∨
      ∃ timestamp,
        ev.1 = .sendReaction (recipient payload) completeReaction payload.userId timestamp := by
  intro ev hev
  rw [p.eq] at hev
  rcases List.mem_append.mp hev with hev | hev
  · exact .inl (p.cases_before ev hev)
  · exact .inr ((runs_react p.runs_reaction).2 ev hev)

/-- The calls of the voice part are calls of the delivery. -/
theorem voice_subset (p : Parts netlocOk settings payload reply t) : p.voice ⊆ t := by
  intro ev hev
  rw [p.eq]
  simp [hev]

/-- So are the calls of the attachment part. -/
theorem attachments_subset (p : Parts netlocOk settings payload reply t) :
    p.attachments ⊆ t := by
  intro ev hev
  rw [p.eq]
  simp [hev]

/-- The voice note is sent by the voice part. -/
theorem sendVoiceNote_mem (p : Parts netlocOk settings payload reply t) {chatId : PyStr}
    {path : Path} {x : Except PyError Bool} :
    (⟨.sendVoiceNote chatId path, x⟩ : calls.Event) ∈ t ↔
      (⟨.sendVoiceNote chatId path, x⟩ : calls.Event) ∈ p.voice := by
  refine ⟨fun h => ?_, fun h => p.voice_subset h⟩
  rcases p.cases _ h with (hsetup | ⟨hev, -⟩ | ⟨-, hop⟩ | ⟨-, hop⟩) | ⟨_, hop⟩
  · simp [SetupOp] at hsetup
  · exact hev
  · exact hop.elim
  · simp [AttachmentOp, DownloadOp] at hop
  · cases hop

/-- The files are sent by the attachment part. -/
theorem sendAttachments_mem (p : Parts netlocOk settings payload reply t) {chatId : PyStr}
    {paths : List Path} {x : Except PyError Bool} :
    (⟨.sendAttachments chatId paths, x⟩ : calls.Event) ∈ t ↔
      (⟨.sendAttachments chatId paths, x⟩ : calls.Event) ∈ p.attachments := by
  refine ⟨fun h => ?_, fun h => p.attachments_subset h⟩
  rcases p.cases _ h with (hsetup | ⟨-, hop⟩ | ⟨-, hop⟩ | ⟨hev, -⟩) | ⟨_, hop⟩
  · simp [SetupOp] at hsetup
  · simp [VoiceOp, AudioOp] at hop
  · exact hop.elim
  · exact hev
  · cases hop

/-- The text messages are those of the text part. -/
theorem sends_eq (p : Parts netlocOk settings payload reply t) : sends t = sends p.text := by
  -- a run without a `send` event sends nothing
  have hnil : ∀ l : List calls.Event, (∀ ev ∈ l, ∀ chatId message, ev.1 ≠ .send chatId message) →
      sends l = [] := by
    intro l hl
    rw [sends, List.filterMap_eq_nil_iff]
    rintro ⟨op, x⟩ hev
    cases op with
    | send chatId message => exact absurd rfl (hl _ hev chatId message)
    | _ => rfl
  have hsetup : ∀ l, (∀ ev ∈ l, SetupOp ev.1) → sends l = [] := by
    intro l hl
    refine hnil l fun ev hev chatId message heq => ?_
    have := hl ev hev
    rw [heq] at this
    simp [SetupOp] at this
  have hvoice : sends p.voice = [] := by
    refine hnil _ fun ev hev chatId message heq => ?_
    have := voicePart_only.runs p.runs_voice ev hev
    rw [heq] at this
    simp [VoiceOp, AudioOp] at this
  have hatts : sends p.attachments = [] := by
    refine hnil _ fun ev hev chatId message heq => ?_
    have := attachmentPart_only.runs p.runs_attachments ev hev
    rw [heq] at this
    simp [AttachmentOp, DownloadOp] at this
  have hreaction : sends p.reaction = [] := by
    refine hnil _ fun ev hev chatId message heq => ?_
    obtain ⟨_, hop⟩ := (runs_react p.runs_reaction).2 ev hev
    rw [hop] at heq
    cases heq
  conv_lhs => rw [p.eq]
  simp only [sends_append, hvoice, hatts, hreaction,
    hsetup _ fun ev hev => p.setup ev (List.mem_append_left _ hev),
    hsetup _ fun ev hev => p.setup ev (List.mem_append_right _ hev), List.nil_append,
    List.append_nil]

/-- A file in the directory of an attachment was written by the attachment part. -/
theorem attachment_mem_writes (p : Parts netlocOk settings payload reply t) {i : Nat}
    {name : PyStr} :
    attachmentDir i ++ [name] ∈ writes t ↔ attachmentDir i ++ [name] ∈ writes p.attachments := by
  rw [mem_writes, mem_writes]
  constructor
  · rintro ⟨data, hev⟩
    refine ⟨data, ?_⟩
    rcases p.cases _ hev with (hsetup | ⟨-, hop⟩ | ⟨-, hop⟩ | ⟨hev, -⟩) | ⟨_, hop⟩
    · simp [SetupOp] at hsetup
    · rcases hop with ⟨name', heq⟩ | ⟨_, hop⟩
      · exact absurd (List.append_inj_left' heq rfl) (attachmentDir_ne_voiceDir i)
      · cases hop
    · exact hop.elim
    · exact hev
    · cases hop
  · rintro ⟨data, hev⟩
    exact ⟨data, p.attachments_subset hev⟩

/-- Attachments are downloaded in their own part. -/
theorem downloaded_iff (p : Parts netlocOk settings payload reply t) {i : Nat} :
    Downloaded i t ↔ Downloaded i p.attachments := by
  simp only [Downloaded, p.attachment_mem_writes]

end Parts

/-! ### Where the errors of a delivery come from -/

/-- The URLs of the media of a reply. -/
def mediaUrls (payload : CallbackPayload) : List PyStr :=
  (nonEmpty payload.voiceAudioUrl).toList ++ payload.attachments.map (·.url)

/-- The errors of `urlsplit` on a media URL. -/
def UrlError (netlocOk : PyStr → Bool) (payload : CallbackPayload) (e : PyError) : Prop :=
  ∃ url ∈ mediaUrls payload, urlsplit netlocOk url = .error e

/-- The error of `chunk_message` for a limit that is not positive. -/
def ChunkError (settings : Settings) (payload : CallbackPayload) (e : PyError) : Prop :=
  Chunking.chunkMessage (payload.text.getD []) settings.chunkSize = .error e

/-- A positive chunk size raises nothing. -/
theorem not_chunkError (hchunk : 0 < settings.chunkSize) (e : PyError) :
    ¬ ChunkError settings payload e := by
  intro he
  rw [ChunkError, Chunking.chunkMessage, if_neg (not_le.mpr hchunk)] at he
  cases he

section
variable {F : PyError → Prop} {chatId : PyStr}

/-- A write raises its own error. -/
theorem raises_write (path : Path) (data : Bytes) : Raises F (writeBytes path data) :=
  raises_call fun _ => rfl

/-- A download raises the error of its address, or one of a call. -/
theorem raises_downloadToTemp {url : PyStr} {dir : Path} {filename : Option PyStr}
    {suffix : PyStr} (h : ∀ e, urlsplit netlocOk url = .error e → F e) :
    Raises F (downloadToTemp netlocOk settings url dir filename suffix
      signalMaxAttachmentSize) := by
  refine raises_bind (raises_ofExcept h) fun parts => ?_
  split
  · exact raises_pure _
  · refine raises_bind (raises_call fun _ => rfl) fun data => ?_
    cases data with
    | none => exact raises_pure _
    | some data => exact raises_bind (raises_write _ _) fun _ => raises_pure _

/-- Sending chunks raises only errors of calls. -/
theorem raises_sendChunks (chunks : List PyStr) : Raises F (sendChunks chatId chunks) := by
  induction chunks with
  | nil => exact raises_pure _
  | cons chunk chunks ih =>
    exact raises_bind (raises_call fun _ => rfl) fun _ => raises_bind ih fun _ => raises_pure _

/-- The text part raises the error of the chunking, or one of a call. -/
theorem raises_sendTextChunks (h : ∀ e, ChunkError settings payload e → F e) :
    Raises F (sendTextChunks payload.text settings chatId) :=
  raises_bind (raises_ofExcept h) fun chunks =>
    raises_bind (raises_sendChunks chunks) fun _ => raises_pure _

/-- The downloads raise the error of an address, or one of a call. -/
theorem raises_downloadAttachments {atts : List OutboundAttachment} : ∀ index,
    (∀ att ∈ atts, ∀ e, urlsplit netlocOk att.url = .error e → F e) →
      Raises F (downloadAttachments netlocOk settings index atts) := by
  induction atts with
  | nil => exact fun _ _ => raises_pure _
  | cons att atts ih =>
    intro index h
    refine raises_bind (raises_call fun _ => rfl) fun _ =>
      raises_bind (raises_downloadToTemp (h att List.mem_cons_self)) fun path =>
        raises_bind (ih _ fun att hatt => h att (List.mem_cons_of_mem _ hatt)) fun rest => ?_
    cases path <;> exact raises_pure _

/-- A reaction raises nothing of its own. -/
theorem raises_react {emoji : PyStr} : Raises F (react payload emoji) := by
  intro t r h
  obtain ⟨rfl, hreact⟩ := runs_react h
  refine ⟨fun _ _ ev hev => ?_, fun e he => by cases he⟩
  obtain ⟨timestamp, hop⟩ := hreact ev hev
  obtain ⟨op, x⟩ := ev
  cases hop
  rfl

/-- The voice part raises the error of an address, or one of a call. -/
theorem raises_voicePart (h : ∀ e, UrlError netlocOk payload e → F e) :
    Raises F (voicePart netlocOk settings payload chatId) := by
  unfold voicePart
  split
  · refine raises_bind ?_ fun audio => ?_
    · refine raises_bind (raises_call fun _ => rfl) fun _ => raises_bind ?_ fun path => ?_
      · -- the address of the audio is the only thing here that raises by itself
        unfold downloadVoice
        split
        · next url hurl =>
          refine raises_downloadToTemp fun e he => h e ⟨url, ?_, he⟩
          simp [mediaUrls, hurl]
        · exact raises_pure _
      · unfold decodeVoice
        split
        · exact raises_pure _
        · split
          · unfold decodeBase64ToTemp
            split
            · exact raises_pure _
            · exact raises_bind (raises_write _ _) fun _ => raises_pure _
          · exact raises_pure _
    · cases audio with
      | none => exact raises_pure _
      | some path => exact raises_call fun _ => rfl
  · exact raises_pure _

/-- So does the attachment part. -/
theorem raises_attachmentPart (h : ∀ e, UrlError netlocOk payload e → F e) :
    Raises F (attachmentPart netlocOk settings payload chatId) := by
  unfold attachmentPart
  split
  · exact raises_pure _
  · refine raises_bind (raises_downloadAttachments 0 fun att hatt e he => h e ⟨att.url, ?_, he⟩)
      fun result => raises_bind ?_ fun _ => raises_pure _
    · exact List.mem_append_right _ (List.mem_map_of_mem hatt)
    · unfold sendPaths
      split
      · exact raises_pure _
      · exact raises_call fun _ => rfl

/-- The delivery raises an error of an address, of the chunking or of a call. -/
theorem raises_deliverMedia (hurl : ∀ e, UrlError netlocOk payload e → F e)
    (hchunk : ∀ e, ChunkError settings payload e → F e) :
    Raises F (deliverMedia netlocOk settings payload chatId) := by
  refine raises_bind (raises_voicePart hurl) fun voiceOk => raises_bind ?_ fun _ =>
    raises_bind (raises_attachmentPart hurl) fun _ => raises_pure _
  unfold textPart
  split
  · exact raises_pure _
  · exact raises_sendTextChunks hchunk

/-- An error of a delivery was raised by a call, by `urlsplit` on a media URL, or by the
chunking of the text. -/
theorem raises_dispatchComplete :
    Raises (fun e => UrlError netlocOk payload e ∨ ChunkError settings payload e)
      (dispatchComplete netlocOk settings ownsClient payload) := by
  unfold dispatchComplete
  split
  · refine raises_bind (raises_tryFinally (raises_bind (raises_call fun _ => rfl) fun _ =>
      raises_tryFinally (raises_deliverMedia (fun _ => .inl) fun _ => .inr) ?_) ?_) fun reply =>
        raises_bind raises_react fun _ => raises_pure _
    · show Raises _ (.call .closeWorkspace fun _ => .ofExcept (.ok ()))
      exact raises_call fun _ => rfl
    · unfold closeClient
      split
      · exact raises_call fun _ => rfl
      · exact raises_pure _
  · refine raises_bind (raises_sendTextChunks fun _ => .inr) fun _ =>
      raises_bind raises_react fun _ => ?_
    split
    · exact raises_pure _
    · exact raises_pure _

end

/-! ### The verdict -/

/-- The voice note of the reply was sent. -/
def VoiceSent (payload : CallbackPayload) (t : List calls.Event) : Prop :=
  ∃ path, (⟨.sendVoiceNote (recipient payload) path, .ok true⟩ : calls.Event) ∈ t

/-- The text has chunks, and all of them were sent. -/
def ChunksSent (settings : Settings) (payload : CallbackPayload) (t : List calls.Event) : Prop :=
  replyChunks settings payload ≠ [] ∧
    sends t = (replyChunks settings payload).map fun chunk => (recipient payload, chunk, .ok true)

/-- The chat a call goes to. -/
def addressee : Op → Option PyStr
  | .send chatId _ | .sendVoiceNote chatId _ | .sendAttachments chatId _
  | .sendReaction chatId _ _ _ => some chatId
  | .openWorkspace | .closeWorkspace | .closeClient | .mkdir _ | .stream _ _
  | .writeBytes _ _ => none

/-- A call is a reaction. -/
def IsReaction (op : Op) : Prop :=
  ∃ chatId emoji author timestamp, op = .sendReaction chatId emoji author timestamp

/-- What a delivery has done, and what it returns. -/
structure Verdict (settings : Settings) (payload : CallbackPayload) (t : List calls.Event)
    (b : Bool) : Prop where
  /-- The reply was delivered, and so was every attachment. -/
  delivered_iff : b = true ↔
    ((hasVoice payload = true ∧ VoiceSent payload t) ∨ ChunksSent settings payload t ∨
        (hasVoice payload = false ∧ replyChunks settings payload = [])) ∧
      ∀ i < payload.attachments.length,
        Downloaded i t ∧ AttachmentSent (recipient payload) i t
  /-- A voice note suppresses the text. -/
  suppressed : VoiceSent payload t → sends t = []
  /-- Without a voice note, every chunk is attempted once and in order. -/
  attempted : ¬ VoiceSent payload t → (sends t).map (fun s => (s.1, s.2.1))
    = (replyChunks settings payload).map fun chunk => (recipient payload, chunk)
  /-- There is one recipient. -/
  addressed : ∀ ev ∈ t, ∀ chatId, addressee ev.1 = some chatId → chatId = recipient payload
  /-- The reaction step is run once, behind everything else. -/
  reacted : ∃ before reaction, t = before ++ reaction ∧ (∀ ev ∈ before, ¬ IsReaction ev.1) ∧
    Runs (react payload completeReaction) reaction (.ok ())

namespace Parts

variable {reply : Reply} {t : List calls.Event}

/-- The voice part reports whether the voice note was sent. -/
theorem voiceOk_iff (p : Parts netlocOk settings payload reply t) :
    reply.voiceOk = true ↔ VoiceSent payload t := by
  have hsent : VoiceSent payload t ↔ VoiceSent payload p.voice := by
    simp only [VoiceSent, p.sendVoiceNote_mem]
  rw [hsent]
  rcases runs_voicePart p.runs_voice with ⟨-, heq, hok⟩ | ⟨-, audio, front, haudio, hend⟩
  · rw [heq, hok]
    simp [VoiceSent]
  · -- preparing the audio sends no voice note
    have hfront : ¬ VoiceSent payload front := by
      rintro ⟨path, hmem⟩
      exact voiceAudio_only.runs haudio _ hmem
    rcases hend with ⟨-, heq, hok⟩ | ⟨path, -, heq⟩
    · rw [hok, heq]
      simp [hfront]
    · rw [heq]
      constructor
      · intro hok
        rw [hok]
        exact ⟨path, List.mem_append_right _ (List.mem_singleton_self _)⟩
      · rintro ⟨path', hmem⟩
        rcases List.mem_append.mp hmem with hmem | hmem
        · exact absurd ⟨path', hmem⟩ hfront
        · have heq := List.mem_singleton.mp hmem
          injection heq with hop hanswer
          cases hop
          exact (Except.ok.inj hanswer).symm

/-- A voice note that was delivered was asked for. -/
theorem hasVoice_of_voiceOk (p : Parts netlocOk settings payload reply t)
    (h : reply.voiceOk = true) : hasVoice payload = true := by
  rcases runs_voicePart p.runs_voice with ⟨-, -, hok⟩ | ⟨hvoice, -⟩
  · rw [hok] at h
    cases h
  · exact hvoice

/-- The reports of the text part, and the messages it sent. -/
theorem sends_cases (p : Parts netlocOk settings payload reply t)
    (hchunk : 0 < settings.chunkSize) :
    (reply.voiceOk = true ∧ sends t = [] ∧ reply.expected = 0) ∨
      (reply.voiceOk = false ∧ reply.expected = (replyChunks settings payload).length ∧
        ∃ oks : List Bool, oks.length = (replyChunks settings payload).length ∧
          reply.sent = oks.count true ∧
          sends t = List.zipWith (fun chunk ok => (recipient payload, chunk, .ok ok))
            (replyChunks settings payload) oks) := by
  obtain ⟨oks, htext, hlen, hsent, hexpected⟩ := runs_textPart hchunk p.runs_text
  have hsends : sends t = List.zipWith (fun chunk ok => (recipient payload, chunk, .ok ok))
      (if reply.voiceOk then [] else replyChunks settings payload) oks := by
    rw [p.sends_eq, htext, sends_sendEvents]
  cases hvoice : reply.voiceOk with
  | true =>
    rw [hvoice] at hsends hexpected
    exact .inl ⟨rfl, hsends, hexpected⟩
  | false =>
    rw [hvoice] at hsends hexpected
    exact .inr ⟨rfl, hexpected, oks, hlen.trans hexpected, hsent, hsends⟩

/-- All messages were sent exactly if as many were sent as there are chunks. -/
theorem zipWith_eq_map_iff {α β : Type} {f : α → Bool → β} (hf : ∀ a, Function.Injective (f a)) :
    ∀ {l : List α} {oks : List Bool}, oks.length = l.length →
      (List.zipWith f l oks = l.map (f · true) ↔ oks.count true = l.length) := by
  intro l
  induction l with
  | nil => intro oks hlen; simp [List.length_eq_zero_iff.mp hlen]
  | cons a l ih =>
    intro oks hlen
    cases oks with
    | nil => cases hlen
    | cons ok oks =>
      have hlen := Nat.succ.inj hlen
      have hcount := (oks.count_le_length (a := true)).trans_eq hlen
      rw [List.zipWith_cons_cons, List.map_cons, List.cons.injEq, ih hlen, (hf a).eq_iff]
      cases ok with
      | true => simp
      | false =>
        simp
        omega

/-- The verdict on the text of a reply without a voice note. -/
theorem chunksSent_iff (p : Parts netlocOk settings payload reply t)
    (hchunk : 0 < settings.chunkSize) (hvoice : reply.voiceOk = false) :
    ChunksSent settings payload t ↔ 0 < reply.expected ∧ reply.sent = reply.expected := by
  rcases p.sends_cases hchunk with ⟨hok, -⟩ | ⟨-, hexpected, oks, hlen, hsent, hsends⟩
  · rw [hvoice] at hok
    cases hok
  · have hinj : ∀ chunk, Function.Injective fun ok : Bool =>
        ((recipient payload, chunk, .ok ok) : PyStr × PyStr × Except PyError Bool) := by
      intro chunk ok ok' h
      simpa using h
    rw [ChunksSent, hsends, zipWith_eq_map_iff hinj hlen, hexpected, hsent, List.length_pos_iff]

/-- What counts as a delivered reply. -/
theorem replyOk_iff (p : Parts netlocOk settings payload reply t)
    (hchunk : 0 < settings.chunkSize) :
    replyOk payload reply = true ↔ (hasVoice payload = true ∧ VoiceSent payload t) ∨
      ChunksSent settings payload t ∨
        (hasVoice payload = false ∧ replyChunks settings payload = []) := by
  rw [← p.voiceOk_iff, replyOk]
  cases hok : reply.voiceOk with
  | true => simp [p.hasVoice_of_voiceOk hok]
  | false =>
    rw [p.chunksSent_iff hchunk hok]
    rcases p.sends_cases hchunk with ⟨htrue, -⟩ | ⟨-, hexpected, -⟩
    · rw [hok] at htrue
      cases htrue
    · have hnil : replyChunks settings payload = [] ↔ reply.expected = 0 := by
        rw [hexpected, List.length_eq_zero_iff]
      rw [hnil]
      by_cases hpos : 0 < reply.expected
      · simp [hpos, hpos.ne']
      · simp [Nat.eq_zero_of_not_pos hpos]

/-- A run in parts meets the verdict. -/
theorem verdict (p : Parts netlocOk settings payload reply t) (hchunk : 0 < settings.chunkSize) :
    Verdict settings payload t (replyOk payload reply && reply.attachmentsOk) where
  delivered_iff := by
    have hatts : ∀ i, AttachmentSent (recipient payload) i t
        ↔ AttachmentSent (recipient payload) i p.attachments := by
      intro i
      simp only [AttachmentSent, p.sendAttachments_mem]
    rw [Bool.and_eq_true, p.replyOk_iff hchunk, (runs_attachmentPart p.runs_attachments).1]
    simp only [p.downloaded_iff, hatts]
  suppressed h := by
    rcases p.sends_cases hchunk with ⟨-, hsends, -⟩ | ⟨hok, -⟩
    · exact hsends
    · rw [p.voiceOk_iff.mpr h] at hok
      cases hok
  attempted h := by
    rcases p.sends_cases hchunk with ⟨hok, -⟩ | ⟨-, -, oks, hlen, -, hsends⟩
    · exact absurd (p.voiceOk_iff.mp hok) h
    · rw [hsends, List.map_zipWith]
      exact List.ext_getElem (by simp [hlen]) (by simp)
  addressed ev hev chatId hchat := by
    -- the setup, the downloads and the files name no chat
    obtain ⟨op, x⟩ := ev
    rcases p.cases _ hev with
      (hsetup | ⟨-, haudio | ⟨_, rfl⟩⟩ | ⟨-, hop⟩ | ⟨-, hdown | ⟨_, rfl⟩⟩) | ⟨_, rfl⟩
    · rcases hsetup with rfl | rfl | rfl <;> cases hchat
    · cases op <;> first | exact haudio.elim | cases hchat
    · exact (Option.some.inj hchat).symm
    · cases op with
      | send chatId' message => exact (Option.some.inj hchat).symm.trans hop
      | _ => exact hop.elim
    · cases op <;> first | exact hdown.elim | cases hchat
    · exact (Option.some.inj hchat).symm
    · exact (Option.some.inj hchat).symm
  reacted := by
    refine ⟨p.before, p.reaction, p.eq, ?_, p.runs_reaction⟩
    rintro ⟨op, x⟩ hev ⟨chatId, emoji, author, timestamp, rfl⟩
    -- nothing before the last part is a reaction
    rcases p.cases_before _ hev with hop | ⟨-, hop⟩ | ⟨-, hop⟩ | ⟨-, hop⟩
    · simp [SetupOp] at hop
    · simp [VoiceOp, AudioOp] at hop
    · exact hop
    · simp [AttachmentOp, DownloadOp] at hop

end Parts

/-- A delivery of a `complete` reply in which nothing raises returns, and meets the
verdict. -/
theorem dispatchCallback_verdict (hchunk : 0 < settings.chunkSize)
    (htype : payload.type = .complete)
    (hurls : ∀ url ∈ mediaUrls payload, ∃ parts, urlsplit netlocOk url = .ok parts)
    {t : List calls.Event} {r : Except PyError Bool}
    (h : Runs (dispatchCallback netlocOk settings ownsClient payload) t r)
    (hcalls : ∀ ev ∈ t, raised ev = none) :
    ∃ b, r = .ok b ∧ Verdict settings payload t b := by
  rw [dispatchCallback, htype] at h
  cases r with
  | error e =>
    -- no address, no chunk size and no call is left to raise
    exfalso
    rcases (raises_dispatchComplete t _ h).2 e rfl with
      (⟨url, hmem, herror⟩ | herror) | ⟨ev, hev, hraised⟩
    · obtain ⟨parts, hparts⟩ := hurls url hmem
      rw [hparts] at herror
      cases herror
    · exact not_chunkError hchunk e herror
    · rw [hcalls ev hev] at hraised
      cases hraised
  | ok b =>
    obtain ⟨reply, ⟨p⟩, rfl⟩ := runs_dispatchComplete h
    exact ⟨_, rfl, p.verdict hchunk⟩

/-- Answers to all calls of a delivery: a short file for every download, and no failure. -/
def calmAnswer : (op : Op) → op.Answer
  | .openWorkspace | .closeClient | .mkdir _ | .writeBytes _ _ => .ok ()
  | .closeWorkspace => ()
  | .stream _ _ => .ok { status := 200, chunks := [[0x68, 0x69]] }
  | .send _ _ | .sendVoiceNote _ _ | .sendAttachments _ _ | .sendReaction _ _ _ _ => .ok true

/-- A reply with a text and a file. -/
def fileReply : CallbackPayload where
  type := .complete
  userId := lit "8c1f"
  messageKey := lit "1700000000000"
  text := some (lit "hello")
  attachments := [⟨lit "https://engine.example/a.pdf", none, none, none⟩]

/-- The settings of a gateway, with the default chunk size. -/
def defaultSettings : Settings where
  signalAccount := lit "+15550001111"
  engineApiKey := lit "key"
  gatewayPublicUrl := lit "https://gateway.example"

/-- The delivery of the reply with a file. -/
def fileRun : List calls.Event × Except PyError Bool :=
  (dispatchCallback (fun _ => true) defaultSettings true fileReply).run (fun _ => calmAnswer) []

/-- No call raises where all calls succeed. -/
theorem raised_calmAnswer {p : Action Bool} : ∀ ev ∈ (p.run (fun _ => calmAnswer) []).1,
    raised ev = none := by
  intro ev hev
  rw [raised, Prog.answer_of_mem_run ev hev]
  cases ev.1 <;> rfl

/-- The verdict on a reply with a file. -/
theorem dispatchCallback_verdict_file :
    ∃ b, fileRun.2 = .ok b ∧ Verdict defaultSettings fileReply fileRun.1 b := by
  refine dispatchCallback_verdict (by decide) rfl ?_ (Prog.runs_run _ _ []) raised_calmAnswer
  intro url hurl
  obtain rfl := List.mem_singleton.mp hurl
  exact ⟨_, rfl⟩

end SignalGateway.Proofs.Delivery
