import SignalGateway.Proofs.Downloads

/-!
# `SignalGateway.Proofs.Delivery`: the parts of a reply

The voice part, the text part and the attachment part perform different operations
(`VoiceOp`, `TextOp`, `AttachmentOp`), so what is seen in the whole run belongs to one part.
`runs_voicePart`, `runs_textPart` and `runs_attachmentPart` say what each of them does when it
returns.

Each part is a program of its own. Two kinds of lemmas are proved of it:

* the ones with `_only` in their names say which calls it can make, and no others. They follow the
  structure of the program.
* the ones that begin with `runs_` say what the calls of a run that returns have been, and how the
  result depends on their answers.

`sends` and `writes` pick the texts and the files out of a trace. `Requested` and `Downloaded` say
of one attachment that it was asked for, and that it was written. The attachments have directories
of their own (`attachmentDir_injective`), so these facts do not mix.
-/

set_option autoImplicit false

namespace SignalGateway.Proofs.Delivery

open SignalGateway.Delivery SignalGateway.Dispatch Prog

/-! ### What is seen in a run -/

/-- The chat, the text and the outcome of a text message. -/
def sendOf : (op : Op) → op.Answer → Option (PyStr × PyStr × Except PyError Bool)
  | .send chatId message, x => some (chatId, message, x)
  | _, _ => none

/-- The text messages of a run, in order. -/
def sends (t : List calls.Event) : List (PyStr × PyStr × Except PyError Bool) :=
  t.filterMap fun ev => sendOf ev.1 ev.2

/-- The path of a write that succeeded. -/
def writeOf : (op : Op) → op.Answer → Option Path
  | .writeBytes path _, .ok _ => some path
  | _, _ => none

/-- The files a run has written, in order. -/
def writes (t : List calls.Event) : List Path :=
  t.filterMap fun ev => writeOf ev.1 ev.2

/-- The texts sent in two stretches. -/
@[simp] theorem sends_append (t₁ t₂ : List calls.Event) :
    sends (t₁ ++ t₂) = sends t₁ ++ sends t₂ := List.filterMap_append

/-- The files written in two stretches. -/
@[simp] theorem writes_append (t₁ t₂ : List calls.Event) :
    writes (t₁ ++ t₂) = writes t₁ ++ writes t₂ := List.filterMap_append

/-- A file is written when the call for it returns. -/
theorem mem_writes {t : List calls.Event} {path : Path} :
    path ∈ writes t ↔ ∃ data, (⟨.writeBytes path data, .ok ()⟩ : calls.Event) ∈ t := by
  rw [writes, List.mem_filterMap]
  constructor
  · rintro ⟨⟨op, x⟩, hev, hwrite⟩
    cases op with
    | writeBytes path' data =>
      cases x with
      | error e => cases hwrite
      | ok u =>
        cases hwrite
        exact ⟨data, hev⟩
    | _ => cases hwrite
  · rintro ⟨data, hev⟩
    exact ⟨_, hev, rfl⟩

/-! ### The operations of the parts -/

/-- Opening and closing the workspace and the client. -/
def SetupOp (op : Op) : Prop := op = .openWorkspace ∨ op = .closeWorkspace ∨ op = .closeClient

/-- The operations that obtain the audio of the voice part. -/
def AudioOp : Op → Prop
  | .mkdir _ | .stream _ _ => True
  | .writeBytes path _ => ∃ name, path = voiceDir ++ [name]
  | .openWorkspace | .closeWorkspace | .closeClient | .send _ _ | .sendVoiceNote _ _
  | .sendAttachments _ _ | .sendReaction _ _ _ _ => False

/-- The operations of the voice part. -/
def VoiceOp (chatId : PyStr) (op : Op) : Prop :=
  AudioOp op ∨ ∃ path, op = .sendVoiceNote chatId path

/-- The operations of the text part. -/
def TextOp (chatId : PyStr) : Op → Prop
  | .send chatId' _ => chatId' = chatId
  | .openWorkspace | .closeWorkspace | .closeClient | .mkdir _ | .stream _ _ | .writeBytes _ _
  | .sendVoiceNote _ _ | .sendAttachments _ _ | .sendReaction _ _ _ _ => False

/-- The operations of the loop over the attachments, from the attachment `index` on. -/
def DownloadOp (index : Nat) : Op → Prop
  | .mkdir _ | .stream _ _ => True
  | .writeBytes path _ => ∃ i name, index ≤ i ∧ path = attachmentDir i ++ [name]
  | .openWorkspace | .closeWorkspace | .closeClient | .send _ _ | .sendVoiceNote _ _
  | .sendAttachments _ _ | .sendReaction _ _ _ _ => False

/-- The operations of the attachment part. -/
def AttachmentOp (chatId : PyStr) (op : Op) : Prop :=
  DownloadOp 0 op ∨ ∃ paths, op = .sendAttachments chatId paths

variable {netlocOk : PyStr → Bool} {settings : Settings} {payload : CallbackPayload}
  {chatId : PyStr}

/-- A download writes to its directory. -/
theorem downloadToTemp_only {P : Op → Prop} {url : PyStr} {dir : Path}
    {filename : Option PyStr} {suffix : PyStr} {maxBytes : Nat}
    (hstream : ∀ url token, P (.stream url token))
    (hwrite : ∀ name data, P (.writeBytes (dir ++ [name]) data)) :
    (downloadToTemp netlocOk settings url dir filename suffix maxBytes).Only P := by
  refine only_bind (only_ofExcept _) fun parts => ?_
  split
  · exact trivial
  · refine only_bind ⟨hstream _ _, fun answer => only_ofExcept _⟩ fun data => ?_
    cases data with
    | none => exact trivial
    | some data => exact only_bind ⟨hwrite _ _, fun _ => only_ofExcept _⟩ fun _ => trivial

/-- The calls for the audio. -/
theorem voiceAudio_only : (voiceAudio netlocOk settings payload).Only AudioOp := by
  refine only_bind ⟨trivial, fun _ => only_ofExcept _⟩ fun _ => only_bind ?_ fun path => ?_
  · unfold downloadVoice
    split
    · exact downloadToTemp_only (fun _ _ => trivial) fun name _ => ⟨name, rfl⟩
    · exact trivial
  · unfold decodeVoice
    split
    · exact trivial
    · split
      · unfold decodeBase64ToTemp
        split
        · exact trivial
        · exact only_bind ⟨⟨_, rfl⟩, fun _ => only_ofExcept _⟩ fun _ => trivial
      · exact trivial

/-- The calls of the voice part. -/
theorem voicePart_only :
    (voicePart netlocOk settings payload chatId).Only (VoiceOp chatId) := by
  unfold voicePart
  split
  · refine only_bind (voiceAudio_only.mono fun _ => .inl) fun path => ?_
    cases path with
    | none => exact trivial
    | some path => exact ⟨.inr ⟨path, rfl⟩, fun _ => only_ofExcept _⟩
  · exact trivial

/-- Chunks are sent, and nothing else is done. -/
theorem sendChunks_only (chunks : List PyStr) :
    (sendChunks chatId chunks).Only (TextOp chatId) := by
  induction chunks with
  | nil => exact trivial
  | cons chunk chunks ih =>
    exact only_bind ⟨rfl, fun _ => only_ofExcept _⟩ fun _ => only_bind ih fun _ => trivial

/-- The same for the chunks of a text. -/
theorem sendTextChunks_only (text : Option PyStr) :
    (sendTextChunks text settings chatId).Only (TextOp chatId) :=
  only_bind (only_ofExcept _) fun chunks => only_bind (sendChunks_only chunks) fun _ => trivial

/-- The calls of the text part. -/
theorem textPart_only {voiceOk : Bool} :
    (textPart settings payload chatId voiceOk).Only (TextOp chatId) := by
  unfold textPart
  split
  · exact trivial
  · exact sendTextChunks_only _

/-- The calls for the attachments, from the given index on. -/
theorem downloadAttachments_only (atts : List OutboundAttachment) : ∀ index,
    (downloadAttachments netlocOk settings index atts).Only (DownloadOp index) := by
  induction atts with
  | nil => exact fun _ => trivial
  | cons att atts ih =>
    intro index
    have hmono : ∀ op, DownloadOp (index + 1) op → DownloadOp index op := by
      intro op hop
      cases op with
      | writeBytes path data =>
        obtain ⟨i, name, hi, hpath⟩ := hop
        exact ⟨i, name, Nat.le_of_succ_le hi, hpath⟩
      | _ => exact hop
    refine only_bind ⟨trivial, fun _ => only_ofExcept _⟩ fun _ => only_bind ?_ fun path =>
      only_bind ((ih (index + 1)).mono hmono) fun rest => ?_
    · exact downloadToTemp_only (fun _ _ => trivial) fun name _ => ⟨index, name, le_rfl, rfl⟩
    · cases path <;> exact trivial

/-- The calls of the attachment part. -/
theorem attachmentPart_only :
    (attachmentPart netlocOk settings payload chatId).Only (AttachmentOp chatId) := by
  unfold attachmentPart
  split
  · exact trivial
  · refine only_bind ((downloadAttachments_only _ 0).mono fun _ => .inl) fun result =>
      only_bind ?_ fun _ => trivial
    unfold sendPaths
    split
    · exact trivial
    · exact ⟨.inr ⟨_, rfl⟩, fun _ => only_ofExcept _⟩

/-! ### The text part -/

/-- The events of text messages. -/
def sendEvents (chatId : PyStr) (chunks : List PyStr) (oks : List Bool) : List calls.Event :=
  List.zipWith (fun chunk ok => ⟨.send chatId chunk, .ok ok⟩) chunks oks

/-- Every chunk is sent, in order, whatever happens to the chunks before. -/
theorem runs_sendChunks {chunks : List PyStr} : ∀ {t : List calls.Event} {n : Nat},
    Runs (sendChunks chatId chunks) t (.ok n) →
      ∃ oks : List Bool, oks.length = chunks.length ∧ t = sendEvents chatId chunks oks ∧
        n = oks.count true := by
  induction chunks with
  | nil =>
    intro t n h
    cases h
    exact ⟨[], rfl, rfl, rfl⟩
  | cons chunk chunks ih =>
    intro t n h
    obtain ⟨ok, t₁, t₂, rfl, hsend, hrest⟩ := h.split
    obtain ⟨x, rfl, rfl⟩ := runs_call_ofExcept.mp hsend
    obtain ⟨sent, t₃, t₄, rfl, hchunks, hret⟩ := hrest.split
    obtain ⟨oks, hlen, rfl, rfl⟩ := ih hchunks
    obtain ⟨rfl, hn⟩ := runs_pure.mp hret
    cases hn
    refine ⟨ok :: oks, congrArg (· + 1) hlen, by simp [sendEvents], ?_⟩
    cases ok <;> simp [Nat.add_comm]

/-- The texts of the calls for the chunks. -/
theorem sends_sendEvents {chunks : List PyStr} : ∀ {oks : List Bool},
    sends (sendEvents chatId chunks oks)
      = List.zipWith (fun chunk ok => (chatId, chunk, .ok ok)) chunks oks := by
  induction chunks with
  | nil => intro oks; rfl
  | cons chunk chunks ih =>
    intro oks
    cases oks with
    | nil => rfl
    | cons ok oks => exact congrArg (_ :: ·) ih

/-- The chunks of the reply text. -/
def replyChunks (settings : Settings) (payload : CallbackPayload) : List PyStr :=
  Chunking.chunkText (payload.text.getD []) settings.chunkSize.toNat

/-- The text part sends all chunks, unless a voice note was delivered. -/
theorem runs_textPart (hchunk : 0 < settings.chunkSize) {voiceOk : Bool}
    {t : List calls.Event} {sent expected : Nat}
    (h : Runs (textPart settings payload chatId voiceOk) t (.ok (sent, expected))) :
    ∃ oks : List Bool, t = sendEvents chatId (if voiceOk then [] else replyChunks settings payload) oks ∧
      oks.length = expected ∧ sent = oks.count true ∧
      expected = (if voiceOk then [] else replyChunks settings payload).length := by
  cases voiceOk with
  | true =>
    cases h
    exact ⟨[], rfl, rfl, rfl, rfl⟩
  | false =>
    have htext : Runs (sendTextChunks payload.text settings chatId) t (.ok (sent, expected)) := h
    rw [sendTextChunks, Chunking.chunkMessage, if_neg (not_le.mpr hchunk)] at htext
    have hchunks : Runs (sendChunks chatId (replyChunks settings payload) >>= fun sent =>
        return (sent, (replyChunks settings payload).length)) t (.ok (sent, expected)) := htext
    obtain ⟨n, t₁, t₂, rfl, hsend, hret⟩ := hchunks.split
    obtain ⟨rfl, hn⟩ := runs_pure.mp hret
    cases hn
    obtain ⟨oks, hlen, rfl, hcount⟩ := runs_sendChunks hsend
    exact ⟨oks, List.append_nil _, hlen, hcount, rfl⟩

/-! ### The voice part -/

/-- The bytes of the base64 field, if it is there and valid. -/
def fallbackBytes (payload : CallbackPayload) : Option Bytes :=
  (nonEmpty payload.voiceAudioBase64).bind fun b64 => decodedBytes b64 signalMaxAttachmentSize

/-- A run of the voice part that returns. A voice note is attempted unless there is neither
a download nor a valid base64 field, and the part reports whether it was sent. -/
theorem runs_voicePart {t : List calls.Event} {ok : Bool}
    (h : Runs (voicePart netlocOk settings payload chatId) t (.ok ok)) :
    (hasVoice payload = false ∧ t = [] ∧ ok = false) ∨
      (hasVoice payload = true ∧ ∃ audio front, Runs (voiceAudio netlocOk settings payload) front
          (.ok audio) ∧
        ((audio = none ∧ t = front ∧ ok = false) ∨
          ∃ path, audio = some path ∧ t = front ++ [⟨.sendVoiceNote chatId path, .ok ok⟩])) := by
  unfold voicePart at h
  split at h
  · next hvoice =>
    refine .inr ⟨hvoice, ?_⟩
    obtain ⟨audio, t₁, t₂, rfl, haudio, hsend⟩ := h.split
    refine ⟨audio, t₁, haudio, ?_⟩
    -- without audio nothing is sent
    cases audio with
    | none =>
      obtain ⟨rfl, hok⟩ := runs_pure.mp hsend
      cases hok
      exact .inl ⟨rfl, List.append_nil _, rfl⟩
    | some path =>
      obtain ⟨x, rfl, rfl⟩ := runs_call_ofExcept.mp hsend
      exact .inr ⟨path, rfl, rfl⟩
  · next hvoice =>
    cases h
    exact .inl ⟨Bool.not_eq_true _ ▸ hvoice, rfl, rfl⟩

/-- A directory that is made takes one call. -/
theorem runs_mkdir {path : Path} {t : List calls.Event} {u : Unit}
    (h : Runs (mkdir path) t (.ok u)) : t = [⟨.mkdir path, .ok ()⟩] := by
  obtain ⟨x, rfl, rfl⟩ := runs_call_ofExcept.mp h
  rfl

/-- A download that returns: the URL is valid, and the result is the file that was written. -/
theorem runs_downloadToTemp {url : PyStr} {dir : Path} {filename : Option PyStr}
    {suffix : PyStr} {maxBytes : Nat} {t : List calls.Event} {path : Option Path}
    (h : Runs (downloadToTemp netlocOk settings url dir filename suffix maxBytes) t (.ok path)) :
    (∃ parts, urlsplit netlocOk url = .ok parts) ∧ writes t = path.toList ∧
      ∀ p ∈ path, ∃ name, p = dir ++ [name] := by
  generalize hr : (Except.ok path : Except PyError _) = r at h
  cases downloadToTemp_cases h with
  | badUrl hurl => cases hr
  | refused hurl hscheme =>
    cases hr
    exact ⟨⟨_, hurl⟩, rfl, fun p hp => by cases hp⟩
  | raised hurl hscheme hanswer => cases hr
  | failed hurl hscheme hanswer =>
    cases hr
    exact ⟨⟨_, hurl⟩, rfl, fun p hp => by cases hp⟩
  | received x hurl hscheme hanswer =>
    cases x with
    | error e => cases hr
    | ok u =>
      cases hr
      refine ⟨⟨_, hurl⟩, rfl, ?_⟩
      intro p hp
      cases hp
      exact ⟨_, rfl⟩

/-- The voice part finds no audio only if the base64 field has none either. What it finds is a
file that was written. -/
theorem runs_voiceAudio {t : List calls.Event} {audio : Option Path}
    (h : Runs (voiceAudio netlocOk settings payload) t (.ok audio)) :
    (∀ url, nonEmpty payload.voiceAudioUrl = some url →
        ∃ parts, urlsplit netlocOk url = .ok parts) ∧
      (audio = none → fallbackBytes payload = none) ∧ ∀ path ∈ audio, path ∈ writes t := by
  obtain ⟨u, t₁, t₂, rfl, -, hrest⟩ := h.split
  obtain ⟨path, t₃, t₄, rfl, hurl, hdecode⟩ := hrest.split
  refine ⟨?_, ?_⟩
  · intro url hsome
    rw [downloadVoice, hsome] at hurl
    exact (runs_downloadToTemp hurl).1
  · -- a downloaded file is what is sent, otherwise the inline audio is decoded
    cases path with
    | some path =>
      cases hdecode
      refine ⟨fun h => (by cases h), fun path' hpath => ?_⟩
      cases hpath
      have hwritten : path ∈ writes t₃ := by
        unfold downloadVoice at hurl
        split at hurl
        · rw [(runs_downloadToTemp hurl).2.1]
          exact List.mem_singleton_self _
        · cases hurl
      simp [hwritten]
    | none =>
      rw [decodeVoice] at hdecode
      rw [fallbackBytes]
      split at hdecode
      · next b64 hsome =>
        rw [hsome]
        rcases decodeBase64ToTemp_cases hdecode with ⟨hnone, rfl, haudio⟩ | ⟨data, x, -, hx⟩
        · cases haudio
          exact ⟨fun _ => hnone, fun path hpath => by cases hpath⟩
        · cases x with
          | error e => cases hx
          | ok u =>
            cases hx
            refine ⟨fun h => (by cases h), fun path hpath => ?_⟩
            cases hpath
            simp [writes, writeOf]
      · next hnone =>
        cases hdecode
        rw [hnone]
        exact ⟨fun _ => rfl, fun path hpath => by cases hpath⟩

/-! ### The attachment part -/

/-- An attachment was written to its directory. -/
def Downloaded (index : Nat) (t : List calls.Event) : Prop :=
  ∃ name, attachmentDir index ++ [name] ∈ writes t

/-- An attachment with an https URL was requested, and what was received was written. -/
def Requested (netlocOk : PyStr → Bool) (settings : Settings) (index : Nat)
    (att : OutboundAttachment) (t : List calls.Event) : Prop :=
  ∃ parts, urlsplit netlocOk att.url = .ok parts ∧
    (lower parts.scheme = lit "https" → ∃ answer,
      (⟨.stream att.url settings.engineApiKey, answer⟩ : calls.Event) ∈ t ∧
        ∀ data, receive signalMaxAttachmentSize answer = .ok (some data) →
          (⟨.writeBytes (attachmentDir index ++ [targetName parts.path att.filename []]) data,
            .ok ()⟩ : calls.Event) ∈ t)

/-- A longer trace still holds the request. -/
theorem Requested.mono {index : Nat} {att : OutboundAttachment} {t t' : List calls.Event}
    (h : Requested netlocOk settings index att t) (hsub : t ⊆ t') :
    Requested netlocOk settings index att t' := by
  obtain ⟨parts, hurl, hhttps⟩ := h
  refine ⟨parts, hurl, fun hscheme => ?_⟩
  obtain ⟨answer, hstream, hwrite⟩ := hhttps hscheme
  exact ⟨answer, hsub hstream, fun data hdata => hsub (hwrite data hdata)⟩

/-- Every attachment has its own directory. -/
theorem attachmentDir_injective : Function.Injective attachmentDir := by
  intro i j h
  exact digits_injective (List.append_cancel_left (List.cons.inj h).1)

/-- The voice note has a directory of its own. -/
theorem attachmentDir_ne_voiceDir (index : Nat) : attachmentDir index ≠ voiceDir := by
  intro h
  have hname : lit "att-" ++ (digitsOf index).map digitChr = lit "voice" := (List.cons.inj h).1
  exact absurd (List.cons.inj hname).1 (by decide)

/-- An attachment whose download returns was requested. -/
theorem requested_of_runs {index : Nat} {att : OutboundAttachment} {t : List calls.Event}
    {path : Option Path}
    (h : Runs (downloadToTemp netlocOk settings att.url (attachmentDir index) att.filename []
      signalMaxAttachmentSize) t (.ok path)) :
    Requested netlocOk settings index att t := by
  generalize hr : (Except.ok path : Except PyError _) = r at h
  cases downloadToTemp_cases h with
  | badUrl hurl => cases hr
  | refused hurl hscheme => exact ⟨_, hurl, fun hhttps => absurd hhttps hscheme⟩
  | raised hurl hscheme hanswer => cases hr
  | failed hurl hscheme hanswer =>
    refine ⟨_, hurl, fun _ => ⟨_, List.mem_singleton_self _, fun data hdata => ?_⟩⟩
    -- the exchange received no body
    rw [hanswer] at hdata
    cases hdata
  | received x hurl hscheme hanswer =>
    cases x with
    | error e => cases hr
    | ok u =>
      refine ⟨_, hurl, fun _ => ⟨_, List.mem_cons_self, fun data hdata => ?_⟩⟩
      rw [hanswer] at hdata
      cases hdata
      exact List.mem_cons_of_mem _ (List.mem_singleton_self _)

/-- Files of later attachments are in other directories. -/
theorem not_downloaded_of_only {index : Nat} {t : List calls.Event}
    (h : ∀ ev ∈ t, DownloadOp (index + 1) ev.1) : ¬ Downloaded index t := by
  rintro ⟨name, hmem⟩
  obtain ⟨data, hev⟩ := mem_writes.mp hmem
  obtain ⟨i, name', hi, heq⟩ := h _ hev
  have hindex := attachmentDir_injective (List.append_inj_left' heq rfl)
  omega

/-- One round of the loop over the attachments, and the rounds behind it. -/
theorem runs_downloadAttachments_cons {att : OutboundAttachment} {atts : List OutboundAttachment}
    {index : Nat} {t : List calls.Event} {paths : List Path} {ok : Bool}
    (h : Runs (downloadAttachments netlocOk settings index (att :: atts)) t (.ok (paths, ok))) :
    ∃ path t₁ t₂ rest restOk, t = ⟨.mkdir (attachmentDir index), .ok ()⟩ :: (t₁ ++ t₂) ∧
      Runs (downloadToTemp netlocOk settings att.url (attachmentDir index) att.filename []
        signalMaxAttachmentSize) t₁ (.ok path) ∧
      Runs (downloadAttachments netlocOk settings (index + 1) atts) t₂ (.ok (rest, restOk)) ∧
      paths = path.toList ++ rest ∧ ok = (path.isSome && restOk) := by
  obtain ⟨u, t₁, t₂, rfl, hmk, hbody⟩ := h.split
  obtain rfl := runs_mkdir hmk
  obtain ⟨path, t₃, t₄, rfl, hdown, hrest⟩ := hbody.split
  obtain ⟨⟨rest, restOk⟩, t₅, t₆, rfl, hloop, hret⟩ := hrest.split
  have hresult : t₆ = [] ∧ paths = path.toList ++ rest ∧ ok = (path.isSome && restOk) := by
    cases path <;> cases hret <;> exact ⟨rfl, rfl, by simp⟩
  obtain ⟨rfl, hpaths, hok⟩ := hresult
  rw [List.append_nil]
  exact ⟨path, t₃, t₅, rest, restOk, rfl, hdown, hloop, hpaths, hok⟩

/-- The loop returns the files that were written. -/
theorem writes_of_downloadAttachments {atts : List OutboundAttachment} :
    ∀ {index : Nat} {t : List calls.Event} {paths : List Path} {ok : Bool},
      Runs (downloadAttachments netlocOk settings index atts) t (.ok (paths, ok)) →
        paths = writes t := by
  induction atts with
  | nil =>
    intro index t paths ok h
    cases h
    rfl
  | cons att atts ih =>
    intro index t paths ok h
    obtain ⟨path, t₁, t₂, rest, restOk, rfl, hdown, hloop, rfl, -⟩ :=
      runs_downloadAttachments_cons h
    rw [ih hloop, ← (runs_downloadToTemp hdown).2.1, ← writes_append]
    rfl

/-- The loop reports whether every attachment was downloaded. -/
theorem all_downloaded_iff {atts : List OutboundAttachment} :
    ∀ {index : Nat} {t : List calls.Event} {paths : List Path} {ok : Bool},
      Runs (downloadAttachments netlocOk settings index atts) t (.ok (paths, ok)) →
        (ok = true ↔ ∀ i < atts.length, Downloaded (index + i) t) := by
  induction atts with
  | nil =>
    intro index t paths ok h
    cases h
    simp
  | cons att atts ih =>
    intro index t paths ok h
    obtain ⟨path, t₁, t₂, rest, restOk, rfl, hdown, hloop, -, rfl⟩ :=
      runs_downloadAttachments_cons h
    obtain ⟨-, hwrites, hdir⟩ := runs_downloadToTemp hdown
    have hmem : ∀ i, Downloaded i (⟨.mkdir (attachmentDir index), .ok ()⟩ :: (t₁ ++ t₂))
        ↔ (∃ name, path = some (attachmentDir i ++ [name])) ∨ Downloaded i t₂ := by
      intro i
      have hw : writes (⟨.mkdir (attachmentDir index), .ok ()⟩ :: (t₁ ++ t₂))
          = path.toList ++ writes t₂ := by
        rw [← hwrites, ← writes_append]
        rfl
      rw [Downloaded, Downloaded, hw, ← exists_or]
      simp only [List.mem_append, Option.mem_toList]
    -- The later attachments are written to other directories than this one.
    have hout : ¬ Downloaded index t₂ :=
      not_downloaded_of_only ((downloadAttachments_only atts (index + 1)).runs hloop)
    have hshift : ∀ i, index + (i + 1) = index + 1 + i := by omega
    rw [Bool.and_eq_true, ih hloop]
    constructor
    · rintro ⟨hsome, hdone⟩ i hi
      rw [hmem]
      cases i with
      | zero =>
        obtain ⟨p, rfl⟩ := Option.isSome_iff_exists.mp hsome
        obtain ⟨name, rfl⟩ := hdir p rfl
        exact .inl ⟨name, rfl⟩
      | succ i =>
        rw [hshift]
        exact .inr (hdone i (Nat.lt_of_succ_lt_succ hi))
    · intro hdone
      constructor
      · rcases (hmem index).mp (hdone 0 (Nat.succ_pos _)) with ⟨name, rfl⟩ | hlater
        · rfl
        · exact absurd hlater hout
      · intro i hi
        have hthis := hdone (i + 1) (Nat.succ_lt_succ hi)
        rw [hmem, hshift] at hthis
        rcases hthis with ⟨name, rfl⟩ | hlater
        · -- The file of this attachment is in its own directory.
          obtain ⟨name', heq⟩ := hdir _ rfl
          have := attachmentDir_injective (List.append_inj_left' heq rfl)
          omega
        · exact hlater

/-- Every attachment is requested. -/
theorem requested_of_downloadAttachments {atts : List OutboundAttachment} :
    ∀ {index : Nat} {t : List calls.Event} {paths : List Path} {ok : Bool},
      Runs (downloadAttachments netlocOk settings index atts) t (.ok (paths, ok)) →
        ∀ i att, atts[i]? = some att → Requested netlocOk settings (index + i) att t := by
  induction atts with
  | nil => exact fun _ i att hatt => by simp at hatt
  | cons att atts ih =>
    intro index t paths ok h i att' hatt
    obtain ⟨path, t₁, t₂, rest, restOk, rfl, hdown, hloop, -, -⟩ :=
      runs_downloadAttachments_cons h
    cases i with
    | zero =>
      cases hatt
      exact (requested_of_runs hdown).mono fun ev hev =>
        List.mem_cons_of_mem _ (List.mem_append_left _ hev)
    | succ i =>
      rw [show index + (i + 1) = index + 1 + i by omega]
      exact (ih hloop i att' hatt).mono fun ev hev =>
        List.mem_cons_of_mem _ (List.mem_append_right _ hev)

/-- The loop over the attachments. Each is requested, and the paths are the files that were
written. It reports whether all of them were. -/
theorem runs_downloadAttachments {atts : List OutboundAttachment} {index : Nat}
    {t : List calls.Event} {paths : List Path} {ok : Bool}
    (h : Runs (downloadAttachments netlocOk settings index atts) t (.ok (paths, ok))) :
    paths = writes t ∧ (ok = true ↔ ∀ i < atts.length, Downloaded (index + i) t) ∧
      ∀ i att, atts[i]? = some att → Requested netlocOk settings (index + i) att t :=
  ⟨writes_of_downloadAttachments h, all_downloaded_iff h, requested_of_downloadAttachments h⟩

/-- An attachment is among the files of a message that was sent. -/
def AttachmentSent (chatId : PyStr) (index : Nat) (t : List calls.Event) : Prop :=
  ∃ paths name, (⟨.sendAttachments chatId paths, .ok true⟩ : calls.Event) ∈ t ∧
    attachmentDir index ++ [name] ∈ paths

/-- The runs of the attachment part. -/
inductive AttachmentRun (netlocOk : PyStr → Bool) (settings : Settings)
    (atts : List OutboundAttachment) (chatId : PyStr) :
    List calls.Event → Except PyError Bool → Prop where
  /-- The loop raises. -/
  | raised {t : List calls.Event} {e : PyError}
      (hloop : Runs (downloadAttachments netlocOk settings 0 atts) t (.error e)) :
      AttachmentRun netlocOk settings atts chatId t (.error e)
  /-- There is nothing to send. -/
  | empty {t : List calls.Event} {ok : Bool}
      (hloop : Runs (downloadAttachments netlocOk settings 0 atts) t (.ok ([], ok))) :
      AttachmentRun netlocOk settings atts chatId t (.ok ok)
  /-- The files are handed on. -/
  | sent {t : List calls.Event} {paths : List Path} {ok : Bool} (hne : paths ≠ [])
      (hloop : Runs (downloadAttachments netlocOk settings 0 atts) t (.ok (paths, ok)))
      (x : Except PyError Bool) :
      AttachmentRun netlocOk settings atts chatId (t ++ [⟨.sendAttachments chatId paths, x⟩])
        (x.map fun sendOk => ok && sendOk)

/-- What the attachment part can do. -/
theorem attachmentPart_cases {t : List calls.Event} {r : Except PyError Bool}
    (h : Runs (attachmentPart netlocOk settings payload chatId) t r) :
    AttachmentRun netlocOk settings payload.attachments chatId t r := by
  unfold attachmentPart at h
  split at h
  · next hnone =>
    cases h
    refine .empty ?_
    rw [List.isEmpty_iff.mp hnone]
    exact .pure _
  · rcases runs_bind.mp h with ⟨⟨paths, ok⟩, t₁, t₂, rfl, hloop, hrest⟩ | ⟨e, rfl, hloop⟩
    · have hsend : Runs (sendPaths chatId paths >>= fun sendOk => return ok && sendOk) t₂ r := hrest
      unfold sendPaths at hsend
      split at hsend
      · next hempty =>
        obtain ⟨rfl, rfl⟩ := runs_pure.mp hsend
        obtain rfl := List.isEmpty_iff.mp hempty
        rw [List.append_nil, Bool.and_true]
        exact .empty hloop
      · next hsome =>
        obtain ⟨x, t₃, rfl, hx⟩ := runs_call.mp hsend
        -- nothing is called after `send`
        have hend : t₃ = [] ∧ r = x.map fun sendOk => ok && sendOk := by
          cases x with
          | ok b => exact runs_pure.mp hx
          | error e => exact runs_raise.mp hx
        obtain ⟨rfl, rfl⟩ := hend
        exact .sent (mt List.isEmpty_iff.mpr hsome) hloop x
    · exact .raised hloop

/-- A run of the attachment part that returns: each attachment is requested, what was written
is handed on, and the part reports whether every attachment was downloaded and sent. -/
theorem runs_attachmentPart {t : List calls.Event} {ok : Bool}
    (h : Runs (attachmentPart netlocOk settings payload chatId) t (.ok ok)) :
    (ok = true ↔ ∀ i < payload.attachments.length, Downloaded i t ∧ AttachmentSent chatId i t) ∧
      (∀ i att, payload.attachments[i]? = some att → Requested netlocOk settings i att t) ∧
      ∀ path ∈ writes t, ∃ paths sent,
        (⟨.sendAttachments chatId paths, .ok sent⟩ : calls.Event) ∈ t ∧ path ∈ paths := by
  generalize hr : (Except.ok ok : Except PyError Bool) = r at h
  cases attachmentPart_cases h with
  | raised hloop => cases hr
  | @empty _ downloadOk hloop =>
    cases hr
    obtain ⟨hpaths, hall, hrequests⟩ := runs_downloadAttachments hloop
    simp only [Nat.zero_add] at hall hrequests
    -- Nothing was written, so all were downloaded only if there are none.
    have hnone : ∀ i, ¬ Downloaded i t := by
      rintro i ⟨name, hmem⟩
      rw [← hpaths] at hmem
      exact List.not_mem_nil hmem
    refine ⟨?_, hrequests, fun path hpath => ?_⟩
    · rw [hall]
      exact ⟨fun hdone i hi => absurd (hdone i hi) (hnone i), fun hdone i hi => (hdone i hi).1⟩
    · rw [← hpaths] at hpath
      exact absurd hpath List.not_mem_nil
  | @sent t₁ paths downloadOk hne hloop x =>
    cases x with
    | error e => cases hr
    | ok sendOk =>
      cases hr
      obtain ⟨rfl, hall, hrequests⟩ := runs_downloadAttachments hloop
      simp only [Nat.zero_add] at hall hrequests
      have honly := (downloadAttachments_only payload.attachments 0).runs hloop
      have hwrites : writes (t₁ ++ [⟨.sendAttachments chatId (writes t₁), .ok sendOk⟩])
          = writes t₁ := by
        rw [writes_append]
        exact List.append_nil _
      have hdown : ∀ i, Downloaded i (t₁ ++ [⟨.sendAttachments chatId (writes t₁), .ok sendOk⟩])
          ↔ Downloaded i t₁ := by
        intro i
        rw [Downloaded, Downloaded, hwrites]
      refine ⟨?_, fun i att hatt => ?_, fun path hpath => ?_⟩
      · rw [Bool.and_eq_true, hall]
        constructor
        · rintro ⟨hdone, rfl⟩ i hi
          obtain ⟨name, hname⟩ := hdone i hi
          exact ⟨(hdown i).mpr ⟨name, hname⟩, writes t₁, name,
            List.mem_append_right _ (List.mem_singleton_self _), hname⟩
        · intro hdone
          refine ⟨fun i hi => (hdown i).mp (hdone i hi).1, ?_⟩
          -- Something was written, so there is an attachment, and its message is this one.
          have hpos : 0 < payload.attachments.length := by
            rw [List.length_pos_iff]
            intro hnil
            rw [hnil] at hloop
            cases hloop
            exact hne rfl
          obtain ⟨-, paths, name, hmem, -⟩ := hdone 0 hpos
          rcases List.mem_append.mp hmem with hmem | hmem
          · exact (honly _ hmem).elim
          · have heq := List.mem_singleton.mp hmem
            injection heq with hop hanswer
            cases hop
            cases hanswer
            rfl
      · exact (hrequests i att hatt).mono fun ev hev => List.mem_append_left _ hev
      · rw [hwrites] at hpath
        exact ⟨_, _, List.mem_append_right _ (List.mem_singleton_self _), hpath⟩

end SignalGateway.Proofs.Delivery
