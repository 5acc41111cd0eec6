import SignalGateway.Proofs.Reply

/-!
# `SignalGateway.Proofs.MediaFaults`: what a media failure costs

`Isolated` is what a reply keeps when its media fail: the delivery returns, the audio falls
back to the base64 field and the reply to its text, and every attachment is attempted and
handed on. `media_isolation` says that this is lost exactly if a media URL is refused by
`urlsplit`, or a directory, a download or a write raises something other than an
`httpx.HTTPError`.

The condition `MediaFault` speaks of the URLs and of the calls that raise. The proof reads it off
the parts of a run (`Parts`):

* `isolated`: the parts of a run that returns give everything that `Isolated` asks for.
* `not_urlError`: a run that returns has met no URL that `urlsplit` refuses.
* The other direction is `raises_dispatchComplete` in `SignalGateway.Proofs.Reply`: it lists where
  an error of a delivery comes from.
-/

set_option autoImplicit false

namespace SignalGateway.Proofs.Delivery

open SignalGateway.Delivery SignalGateway.Dispatch Prog

/-- The calls made for a media item. -/
def IsMediaCall : Op → Prop
  | .mkdir _ | .stream _ _ | .writeBytes _ _ => True
  | .openWorkspace | .closeWorkspace | .closeClient | .send _ _ | .sendVoiceNote _ _
  | .sendAttachments _ _ | .sendReaction _ _ _ _ => False

/-- A media URL that `urlsplit` refuses, or a call for a media item that raises something
`download_to_temp` does not catch. -/
def MediaFault (netlocOk : PyStr → Bool) (payload : CallbackPayload) (t : List calls.Event) :
    Prop :=
  (∃ e, UrlError netlocOk payload e) ∨ ∃ ev ∈ t, IsMediaCall ev.1 ∧ raised ev ≠ none

/-- An attachment with an https URL was requested and what was received was written, unless
its directory could not be made. -/
def Attempted (netlocOk : PyStr → Bool) (settings : Settings) (index : Nat)
    (att : OutboundAttachment) (t : List calls.Event) : Prop :=
  ∀ parts, urlsplit netlocOk att.url = .ok parts → lower parts.scheme = lit "https" →
    (∃ e, (⟨.mkdir (attachmentDir index), .error e⟩ : calls.Event) ∈ t) ∨ ∃ answer,
      (⟨.stream att.url settings.engineApiKey, answer⟩ : calls.Event) ∈ t ∧
        ∀ data, receive signalMaxAttachmentSize answer = .ok (some data) → ∃ x,
          (⟨.writeBytes (attachmentDir index ++ [targetName parts.path att.filename []]) data,
            x⟩ : calls.Event) ∈ t

/-- The audio of the base64 field could not be written. -/
def FallbackFailed (payload : CallbackPayload) (t : List calls.Event) : Prop :=
  (∃ e, (⟨.mkdir voiceDir, .error e⟩ : calls.Event) ∈ t) ∨
    ∀ data, fallbackBytes payload = some data → ∃ name e,
      (⟨.writeBytes (voiceDir ++ [name]) data, .error e⟩ : calls.Event) ∈ t

/-- A media failure has not silenced the rest of the reply. -/
structure Isolated (netlocOk : PyStr → Bool) (settings : Settings) (payload : CallbackPayload)
    (t : List calls.Event) (r : Except PyError Bool) : Prop where
  /-- The delivery does not raise. -/
  returns : ∃ b, r = .ok b
  /-- A file that was written is sent as the voice note, unless the base64 field gave none
  either. -/
  voice : hasVoice payload = true → FallbackFailed payload t ∨ ∃ path ok, path ∈ writes t ∧
    (⟨.sendVoiceNote (recipient payload) path, .ok ok⟩ : calls.Event) ∈ t
  /-- Without a delivered voice note, every chunk of the text is attempted. -/
  text : ¬ VoiceSent payload t → (sends t).map (fun s => (s.1, s.2.1))
    = (replyChunks settings payload).map fun chunk => (recipient payload, chunk)
  /-- Every attachment is attempted, whatever happens to the others. -/
  attempted : ∀ i att, payload.attachments[i]? = some att → Attempted netlocOk settings i att t
  /-- Every attachment that was written is handed to `send_attachments`. -/
  handed : ∀ i name, attachmentDir i ++ [name] ∈ writes t → ∃ paths ok,
    (⟨.sendAttachments (recipient payload) paths, .ok ok⟩ : calls.Event) ∈ t ∧
      attachmentDir i ++ [name] ∈ paths

variable {netlocOk : PyStr → Bool} {settings : Settings} {payload : CallbackPayload}
  {ownsClient : Bool}

namespace Parts

variable {reply : Reply} {t : List calls.Event}

/-- A delivery whose parts have run is isolated. -/
theorem isolated (p : Parts netlocOk settings payload reply t) (hchunk : 0 < settings.chunkSize)
    (b : Bool) : Isolated netlocOk settings payload t (.ok b) where
  returns := ⟨b, rfl⟩
  voice hvoice := by
    rcases runs_voicePart p.runs_voice with ⟨hnone, -⟩ | ⟨-, audio, front, haudio, hend⟩
    · rw [hvoice] at hnone
      cases hnone
    · rcases hend with ⟨rfl, -, -⟩ | ⟨path, rfl, heq⟩
      · have hnone := (runs_voiceAudio haudio).2.1 rfl
        refine .inl (.inr fun data hdata => ?_)
        rw [hnone] at hdata
        cases hdata
      · obtain ⟨data, hwrite⟩ := mem_writes.mp ((runs_voiceAudio haudio).2.2 path rfl)
        have hsub : front ++ [⟨.sendVoiceNote (recipient payload) path, .ok reply.voiceOk⟩] ⊆ t :=
          heq ▸ p.voice_subset
        exact .inr ⟨path, reply.voiceOk, mem_writes.mpr ⟨data, hsub (List.mem_append_left _ hwrite)⟩,
          hsub (List.mem_append_right _ (List.mem_singleton_self _))⟩
  text := (p.verdict hchunk).attempted
  attempted i att hatt parts hparts hscheme := by
    obtain ⟨parts', hparts', hrequest⟩ :=
      ((runs_attachmentPart p.runs_attachments).2.1 i att hatt).mono p.attachments_subset
    obtain rfl := Except.ok.inj (hparts.symm.trans hparts')
    obtain ⟨answer, hstream, hwrite⟩ := hrequest hscheme
    exact .inr ⟨answer, hstream, fun data hdata => ⟨_, hwrite data hdata⟩⟩
  handed i name hmem := by
    obtain ⟨paths, ok, hev, hpath⟩ :=
      (runs_attachmentPart p.runs_attachments).2.2 _ (p.attachment_mem_writes.mp hmem)
    exact ⟨paths, ok, p.attachments_subset hev, hpath⟩

/-- The media URLs of a delivery that returns are valid. -/
theorem not_urlError (p : Parts netlocOk settings payload reply t) (e : PyError) :
    ¬ UrlError netlocOk payload e := by
  rintro ⟨url, hmem, herror⟩
  have hvalid : ∃ parts, urlsplit netlocOk url = .ok parts := by
    rcases List.mem_append.mp hmem with hvoice | hatt
    · have hurl := Option.mem_toList.mp hvoice
      rcases runs_voicePart p.runs_voice with ⟨hnone, -⟩ | ⟨-, audio, front, haudio, -⟩
      · rw [hasVoice, hurl] at hnone
        cases hnone
      · exact (runs_voiceAudio haudio).1 url hurl
    · obtain ⟨att, hmem', rfl⟩ := List.mem_map.mp hatt
      obtain ⟨i, hi⟩ := List.getElem?_of_mem hmem'
      obtain ⟨parts, hparts, -⟩ := (runs_attachmentPart p.runs_attachments).2.1 i att hi
      exact ⟨parts, hparts⟩
  obtain ⟨parts, hparts⟩ := hvalid
  rw [hparts] at herror
  cases herror

end Parts

/-- Without a media fault, an error of a delivery has another cause. With no other cause, a
media failure costs no more than its own item exactly if there is no media fault. -/
theorem media_isolation (htype : payload.type = .complete) {t : List calls.Event}
    {r : Except PyError Bool}
    (h : Runs (dispatchCallback netlocOk settings ownsClient payload) t r) :
    (¬ MediaFault netlocOk payload t → ∀ e, r = .error e →
        (∃ ev ∈ t, ¬ IsMediaCall ev.1 ∧ raised ev = some e) ∨ ChunkError settings payload e) ∧
      (0 < settings.chunkSize → (∀ ev ∈ t, ¬ IsMediaCall ev.1 → raised ev = none) →
        (Isolated netlocOk settings payload t r ↔ ¬ MediaFault netlocOk payload t)) := by
  rw [dispatchCallback, htype] at h
  -- what is raised has an address, the chunking or a call as its cause
  have hcause : ¬ MediaFault netlocOk payload t → ∀ e, r = .error e →
      (∃ ev ∈ t, ¬ IsMediaCall ev.1 ∧ raised ev = some e) ∨ ChunkError settings payload e := by
    intro hfault e he
    rcases (raises_dispatchComplete t r h).2 e he with (hurl | hchunk) | ⟨ev, hev, hraised⟩
    · exact absurd (.inl ⟨e, hurl⟩) hfault
    · exact .inr hchunk
    · refine .inl ⟨ev, hev, fun hmedia => hfault (.inr ⟨ev, hev, hmedia, ?_⟩), hraised⟩
      rw [hraised]
      exact Option.some_ne_none e
  refine ⟨hcause, fun hchunk hother => ⟨?_, fun hfault => ?_⟩⟩
  · rintro hisolated (⟨e, hurl⟩ | ⟨ev, hev, -, hraised⟩)
    all_goals
      obtain ⟨b, rfl⟩ := hisolated.returns
    · obtain ⟨reply, ⟨p⟩, -⟩ := runs_dispatchComplete h
      exact p.not_urlError e hurl
    · exact hraised ((raises_dispatchComplete t _ h).1 b rfl ev hev)
  · cases r with
    | error e =>
      rcases hcause hfault e rfl with ⟨ev, hev, hmedia, hraised⟩ | herror
      · rw [hother ev hev hmedia] at hraised
        cases hraised
      · exact absurd herror (not_chunkError hchunk e)
    | ok b =>
      obtain ⟨reply, ⟨p⟩, -⟩ := runs_dispatchComplete h
      exact p.isolated hchunk b

/-- A reply with a voice note, a text and a file. -/
def voiceReply : CallbackPayload := { fileReply with
  voiceAudioUrl := some (lit "https://engine.example/reply.m4a") }

/-- The same reply with an unbalanced bracket in the URL of the voice note. -/
def brokenReply : CallbackPayload := { fileReply with voiceAudioUrl := some (lit "https://[") }

/-- A bad voice URL silences the whole reply, though every call succeeds. -/
theorem not_isolated_brokenReply :
    ∃ t r, Runs (dispatchCallback (fun _ => true) defaultSettings true brokenReply) t r ∧
      (∀ ev ∈ t, raised ev = none) ∧ r = .error .valueError ∧ sends t = [] ∧
        ¬ Isolated (fun _ => true) defaultSettings brokenReply t r := by
  refine ⟨_, _, Prog.runs_run (fun _ => calmAnswer) _ [], raised_calmAnswer, rfl, rfl, ?_⟩
  intro hisolated
  obtain ⟨b, hb⟩ := hisolated.returns
  cases hb

/-- The download of the voice note breaks off. -/
def unheardStream (url : PyStr) : Except PyError Response :=
  if url = lit "https://engine.example/reply.m4a" then .error .httpError
  else .ok { status := 200, chunks := [[0x68, 0x69]] }

/-- Every other call succeeds. -/
def unheardAnswer : (op : Op) → op.Answer
  | .stream url _ => unheardStream url
  | op => calmAnswer op

/-- The delivery of the reply whose voice note cannot be downloaded. -/
def unheardRun : List calls.Event × Except PyError Bool :=
  (dispatchCallback (fun _ => true) defaultSettings true voiceReply).run (fun _ => unheardAnswer) []

/-- The failed download is caught. -/
theorem raised_unheardRun : ∀ ev ∈ unheardRun.1, raised ev = none := by
  intro ev hev
  rw [raised, Prog.answer_of_mem_run ev hev]
  cases ev.1 with
  | stream url key =>
    show errorOf (receive signalMaxAttachmentSize (unheardStream url)) = none
    rw [unheardStream]
    split <;> rfl
  | _ => rfl

/-- The lost voice note costs neither the text nor the file. -/
theorem media_isolation_voiceReply :
    (⟨.stream (lit "https://engine.example/reply.m4a") (lit "key"), .error .httpError⟩
        : calls.Event) ∈ unheardRun.1 ∧
      Isolated (fun _ => true) defaultSettings voiceReply unheardRun.1 unheardRun.2 ∧
      (sends unheardRun.1).map (fun s => s.2.1) = [lit "hello"] := by
  have hurls : ∀ e, ¬ UrlError (fun _ => true) voiceReply e := by
    rintro e ⟨url, hurl, herror⟩
    rcases List.mem_cons.mp hurl with rfl | hurl
    · cases herror
    · obtain rfl := List.mem_singleton.mp hurl
      cases herror
  refine ⟨?_, ?_, rfl⟩
  · have hmem : unheardRun.1[2]? = some ⟨.stream (lit "https://engine.example/reply.m4a")
        (lit "key"), .error .httpError⟩ := rfl
    exact List.mem_of_getElem? hmem
  · refine ((media_isolation rfl (Prog.runs_run _ _ [])).2 (by decide)
      fun ev hev _ => raised_unheardRun ev hev).mpr ?_
    rintro (⟨e, hurl⟩ | ⟨ev, hev, -, hraised⟩)
    · exact hurls e hurl
    · exact hraised (raised_unheardRun ev hev)

end SignalGateway.Proofs.Delivery
