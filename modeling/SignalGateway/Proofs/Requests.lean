import SignalGateway.Proofs.Relay
import SignalGateway.Proofs.Routing

/-!
# `SignalGateway.Proofs.Requests`: requests with content

`parse_envelope` drops an envelope that has neither text nor attachments, and the inbound
handler drops the attachments that are no audio it can fetch. `contentful_iff` says which
requests still have content behind both.

`buildChatRequest_content` says what a request contains. `fetched_of_submitted` goes from the audio
of a submission back to the attachment that was fetched for it. `Fetched` asks for bytes that are
not empty, so the encoded audio of a request is not empty, either (`b64encode_ne_nil`).
-/

set_option autoImplicit false

namespace SignalGateway.Proofs.Requests

open SignalGateway.Envelope SignalGateway.EngineClient SignalGateway.Media
open SignalGateway.Relay
open SignalGateway.Proofs.Envelope SignalGateway.Proofs.Relay SignalGateway.Proofs.Routing

/-- A request carries audio, or a text that is not blank. -/
def Contentful (request : List (PyStr × Json)) : Prop :=
  (Json.lookup request "message_type" = .str (lit "audio") ∧
      ∃ audio, Json.lookup request "audio_base64" = .str audio ∧ audio ≠ []) ∨
    ∃ text, Json.lookup request "message" = .str text ∧ strip text ≠ []

/-- The fields of a request that hold its content. -/
theorem buildChatRequest_content {message : InboundMessage} {settings : Settings}
    {audio : Option InboundAudio} {request : List (PyStr × Json)}
    (h : buildChatRequest message settings audio = .ok request) :
    Json.lookup request "message" = .str message.text ∧
      Json.lookup request "message_type"
        = .str (if audio.isSome then lit "audio" else lit "text") ∧
      Json.lookup request "audio_base64"
        = (audio.map fun audio => Json.str audio.audioBase64).getD .null := by
  obtain ⟨key, -, h⟩ := bind_ok_iff.mp h
  cases h
  cases audio <;> cases message.isGroup <;> cases message.senderName.truthy <;>
    simp [Json.lookup, List.lookup_append, lookup_dict, List.lookup_cons]

/-- A request has content if its text is not blank or its audio is not empty. -/
theorem contentful_request_iff {message : InboundMessage} {settings : Settings}
    {audio? : Option InboundAudio} {request : List (PyStr × Json)}
    (h : buildChatRequest message settings audio? = .ok request) :
    Contentful request ↔
      strip message.text ≠ [] ∨ ∃ audio, audio? = some audio ∧ audio.audioBase64 ≠ [] := by
  obtain ⟨hmessage, htype, hbase64⟩ := buildChatRequest_content h
  have htext : (∃ text, Json.lookup request "message" = .str text ∧ strip text ≠ []) ↔
      strip message.text ≠ [] := by
    rw [hmessage]
    simp
  rw [Contentful, htext, htype, hbase64, or_comm]
  cases audio? with
  | none => simp
  | some audio => simp

/-- Data that is there has an encoding that is there. -/
theorem b64encode_ne_nil {data : Bytes} (h : data ≠ []) : b64encode data ≠ [] := by
  fun_cases b64encode data with
  | case1 => exact absurd rfl h
  | case2 => exact List.cons_ne_nil _ _
  | case3 => exact List.cons_ne_nil _ _
  | case4 => exact List.cons_ne_nil _ _

/-- A message is submitted with the audio that was fetched for it. -/
theorem fetched_of_submitted {message : InboundMessage} {o : Outcomes}
    {sub : InboundMessage × Option InboundAudio}
    (hsub : sub ∈ submissions (relayCalls o message)) :
    sub.1 = message ∧ ∀ audio, sub.2 = some audio ↔ Fetched message o.attachment audio := by
  obtain ⟨reaction, fetch, rest, a, ht, hfetch, hrest⟩ :=
    runs_relay (Prog.runs_run (fun _ => o.answer) (relay message) [])
  -- every call of this run is answered by `o`
  have hanswer : ∀ ev ∈ relayCalls o message, ev.2 = o.answer ev.1 := Prog.answer_of_mem_run
  rw [relayCalls] at hanswer hsub
  rw [ht] at hanswer hsub
  rcases runs_audioOf hfetch with ⟨rfl, hr, hno⟩ | ⟨ref, format, result, hw, rfl, rfl⟩
  · have hmem : sub ∈ submissions rest := hsub
    rw [hrest] at hmem
    rcases hr with rfl | ⟨⟨e, rfl⟩, -⟩
    · obtain rfl := List.mem_singleton.mp hmem
      refine ⟨rfl, fun audio => iff_of_false (fun h => by cases h) ?_⟩
      rintro ⟨ref, format, -, hw, -⟩
      exact hno ref format hw
    · cases hmem
  · -- so the attachment is the one of `o`
    have hresult : result = o.attachment := hanswer ⟨.rpcGetAttachment ref.id, result⟩ (by simp)
    subst hresult
    have hmem : sub ∈ submissions rest := hsub
    rw [hrest] at hmem
    cases hdata : attachmentBytes o.attachment with
    | error e =>
      rw [hdata] at hmem
      cases hmem
    | ok data? =>
      rw [hdata] at hmem
      obtain rfl := List.mem_singleton.mp hmem
      exact ⟨rfl, encodeAudio_eq_some_iff_fetched hw hdata⟩

/-- Whatever the calls of the handler return, the request it submits for an accepted message
has content exactly if the text of the message is not blank or its audio could be fetched.
A request without content comes from a message with attachments. -/
theorem contentful_iff {repr : Json → Except PyError PyStr} {raw : Json} {settings : Settings}
    {clock : PyFloat} {message : InboundMessage}
    (h : parseEnvelope repr raw settings clock = .ok (some message)) (o : Outcomes) :
    ∀ sub ∈ submissions (relayCalls o message), ∃ request,
      buildChatRequest sub.1 settings sub.2 = .ok request ∧
      (Contentful request ↔
        strip message.text ≠ [] ∨ ∃ audio, Fetched message o.attachment audio) ∧
      (¬ Contentful request → message.attachments ≠ []) := by
  obtain ⟨p⟩ := parse_of_ok h
  rintro ⟨message', audio?⟩ hsub
  obtain ⟨rfl, haudio⟩ := fetched_of_submitted hsub
  obtain ⟨request, hrequest⟩ := exists_request p audio?
  -- what was fetched is not empty, and so is its encoding
  have hfetched : (∃ audio, audio? = some audio ∧ audio.audioBase64 ≠ []) ↔
      ∃ audio, Fetched message' o.attachment audio := by
    constructor
    · rintro ⟨audio, hsome, -⟩
      exact ⟨audio, (haudio audio).mp hsome⟩
    · rintro ⟨audio, hf⟩
      refine ⟨audio, (haudio audio).mpr hf, ?_⟩
      obtain ⟨ref, format, data, -, -, hne, -, rfl⟩ := hf
      exact b64encode_ne_nil hne
  have hiff := (contentful_request_iff hrequest).trans (or_congr_right hfetched)
  refine ⟨request, hrequest, hiff, fun hblank hnil => hblank (hiff.mpr (.inl ?_))⟩
  intro hempty
  -- the envelope had text or attachments
  have hcontent := p.content
  rw [hempty, hnil] at hcontent
  cases hcontent

/-- A voice note without a caption. -/
def voiceEnvelope : Json :=
  .obj (dict
    [("envelope", .obj (dict
      [("sourceUuid", .str (lit "8c1f")), ("timestamp", .int 1700000000000),
        ("dataMessage", .obj (dict
          [("attachments", .arr [.obj (dict
            [("id", .str (lit "a1")), ("contentType", .str (lit "audio/aac"))])])]))]))])

/-- The voice note is accepted. -/
theorem voiceEnvelope_accepted :
    (parseEnvelope (fun _ => .ok []) voiceEnvelope groupSettings
      (.ofRat 1700000000)).toOption.join.isSome = true := by
  decide +kernel

/-- The message of the voice note. -/
def voiceMessage : InboundMessage := Option.get _ voiceEnvelope_accepted

/-- The voice note is submitted with its audio, as a request with content and without text. -/
theorem contentful_iff_voiceNote :
    ∃ sub ∈ submissions (relayCalls ⟨.ok true, .str (lit "YWJj"), .ok true⟩ voiceMessage),
      strip sub.1.text = [] ∧ ∃ request,
        buildChatRequest sub.1 groupSettings sub.2 = .ok request ∧ Contentful request := by
  have hsubs : (submissions (relayCalls ⟨.ok true, .str (lit "YWJj"), .ok true⟩
      voiceMessage)).map (fun sub => (sub.1.text, sub.2.map InboundAudio.audioBase64))
        = [([], some (lit "YWJj"))] := by decide +kernel
  obtain ⟨sub, hsub, hfields⟩ := List.mem_map.mp (hsubs ▸ List.mem_singleton_self _)
  obtain ⟨htext, hbase64⟩ := Prod.mk.inj hfields
  obtain ⟨audio, haudio, -⟩ := Option.map_eq_some_iff.mp hbase64
  obtain ⟨hmessage, hfetched⟩ := fetched_of_submitted hsub
  obtain ⟨request, hrequest, hiff, -⟩ := contentful_iff (eq_accepted voiceEnvelope_accepted)
    ⟨.ok true, .str (lit "YWJj"), .ok true⟩ sub hsub
  exact ⟨sub, hsub, by rw [htext]; rfl, request, hrequest,
    hiff.mpr (.inr ⟨audio, (hfetched audio).mp haudio⟩)⟩

/-- A photo without a caption. -/
def photoEnvelope : Json :=
  .obj (dict
    [("envelope", .obj (dict
      [("sourceUuid", .str (lit "8c1f")), ("timestamp", .int 1700000000000),
        ("dataMessage", .obj (dict
          [("attachments", .arr [.obj (dict
            [("id", .str (lit "a1")), ("contentType", .str (lit "image/jpeg"))])])]))]))])

/-- The photo is accepted. -/
theorem photoEnvelope_accepted :
    (parseEnvelope (fun _ => .ok []) photoEnvelope groupSettings
      (.ofRat 1700000000)).toOption.join.isSome = true := by
  decide +kernel

/-- The message of the photo. -/
def photoMessage : InboundMessage := Option.get _ photoEnvelope_accepted

/-- The photo is submitted, as a request without content. -/
theorem not_contentful_photo :
    parseEnvelope (fun _ => .ok []) photoEnvelope groupSettings (.ofRat 1700000000)
        = .ok (some photoMessage) ∧
      ∃ sub ∈ submissions (relayCalls ⟨.ok true, .null, .ok true⟩ photoMessage), ∃ request,
        buildChatRequest sub.1 groupSettings sub.2 = .ok request ∧ ¬ Contentful request := by
  have hparse := eq_accepted photoEnvelope_accepted
  refine ⟨hparse, ?_⟩
  -- the photo is submitted without text and without audio
  have hsubs : (submissions (relayCalls ⟨.ok true, .null, .ok true⟩ photoMessage)).map
      (fun sub => (sub.1.text, sub.2)) = [([], none)] := by decide +kernel
  obtain ⟨sub, hsub, htext⟩ := List.mem_map.mp (hsubs ▸ List.mem_singleton_self _)
  obtain ⟨hmessage, -⟩ := fetched_of_submitted hsub
  obtain ⟨p⟩ := parse_of_ok hparse
  obtain ⟨request, hrequest⟩ := exists_request p sub.2
  have hsubmitted : buildChatRequest sub.1 groupSettings sub.2 = .ok request := by
    rw [hmessage]
    exact hrequest
  refine ⟨sub, hsub, request, hsubmitted, fun hcontent => ?_⟩
  obtain ⟨hblank, hnone⟩ := Prod.mk.inj htext
  rcases (contentful_request_iff hsubmitted).mp hcontent with hne | ⟨audio, hsome, -⟩
  · rw [hblank] at hne
    exact hne rfl
  · cases hnone.symm.trans hsome

end SignalGateway.Proofs.Requests
