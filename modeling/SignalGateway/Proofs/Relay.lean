import SignalGateway.Relay
import SignalGateway.Proofs.Envelope

/-!
# `SignalGateway.Proofs.Relay`: which messages reach the worker

`relayedOnce_iff`: the handler submits a message exactly once, with its audio if that could
be fetched, unless it fetches audio and the payload cannot be decoded. The decoder raises on
such a payload, and nothing between it and the submission catches the error.

* `WellTyped`: the fields of an attachment have their declared types. Then the selection does not
  raise (`selectInboundAudio_ok`).
* `Wants` is the selection as a relation: the attachment that is fetched, and its format.
* `runs_fetchInboundAudio` and `runs_relay` say what the calls of the handler are.
* `Undecodable` is a payload that the base64 decoder refuses.
-/

set_option autoImplicit false

namespace SignalGateway.Proofs.Relay

open SignalGateway.Envelope SignalGateway.Media SignalGateway.Relay
open SignalGateway.Proofs.Envelope
open Prog

/-! ### Attachments of the declared types -/

/-- `str | None` -/
def IsStrOrNone (x : Json) : Prop := x = .null ∨ ∃ s, x = .str s

/-- The fields of a reference have the types they are declared with. -/
structure WellTyped (ref : AttachmentRef) : Prop where
  contentType : IsStrOrNone ref.contentType
  size : ref.size = .null ∨ ∃ n, ref.size = .int n
  filename : IsStrOrNone ref.filename

/-- A sequence of parts that do not raise does not raise. -/
theorem exists_ok_bind {α β : Type} {x : Except PyError α} {f : α → Except PyError β}
    (hx : ∃ a, x = .ok a) (hf : ∀ a, ∃ b, f a = .ok b) : ∃ b, (x >>= f) = .ok b := by
  obtain ⟨a, ha⟩ := hx
  obtain ⟨b, hb⟩ := hf a
  exact ⟨b, bind_ok_iff.mpr ⟨a, ha, hb⟩⟩

/-- A field that is `None` or a string does not raise. -/
theorem field_ok {β : Type} {x : Json} (h : IsStrOrNone x) {f : PyStr → β} {b : β}
    {read : Json → Except PyError PyStr} (hread : ∀ s, ∃ t, read (.str s) = .ok t) :
    ∃ y, (if x.truthy then f <$> read x else .ok b) = .ok y := by
  rcases h with rfl | ⟨s, rfl⟩
  · exact ⟨b, rfl⟩
  · obtain ⟨t, ht⟩ := hread s
    rw [ht]
    split
    · exact ⟨f t, rfl⟩
    · exact ⟨b, rfl⟩

/-- A well-typed file name is looked up without an error. -/
theorem suffixFormat_ok {ref : AttachmentRef} (h : WellTyped ref) :
    ∃ format, suffixFormat ref = .ok format := field_ok h.filename fun _ => ⟨_, rfl⟩

/-- So is a well-typed content type. -/
theorem typeFormat_ok {ref : AttachmentRef} (h : WellTyped ref) :
    ∃ format, typeFormat ref = .ok format := field_ok h.contentType fun _ => ⟨_, rfl⟩

/-- A well-typed reference is judged without an error. -/
theorem isAudio_ok {ref : AttachmentRef} (h : WellTyped ref) : ∃ b, isAudio ref = .ok b := by
  have htype : ∃ b, hasAudioType ref = .ok b := field_ok h.contentType fun _ => ⟨_, rfl⟩
  refine exists_ok_bind htype fun b => ?_
  cases b with
  | true => exact ⟨true, rfl⟩
  | false => exact exists_ok_bind (suffixFormat_ok h) fun _ => ⟨_, rfl⟩

/-- Its format is found without an error. -/
theorem audioFormat_ok {ref : AttachmentRef} (h : WellTyped ref) :
    ∃ format, audioFormat ref = .ok format := by
  refine exists_ok_bind (typeFormat_ok h) fun format => ?_
  cases format with
  | some format => exact ⟨format, rfl⟩
  | none =>
    refine exists_ok_bind (suffixFormat_ok h) fun format => ?_
    cases format <;> exact ⟨_, rfl⟩

/-- Its size is compared without an error. -/
theorem declaredTooLarge_ok {ref : AttachmentRef} (h : WellTyped ref) (maxBytes : Nat) :
    ∃ b, declaredTooLarge ref maxBytes = .ok b := by
  unfold declaredTooLarge
  rcases h.size with hs | ⟨n, hs⟩ <;> rw [hs] <;> exact ⟨_, rfl⟩

/-- The selection from well-typed references does not raise. -/
theorem selectInboundAudio_ok {refs : List AttachmentRef} (h : ∀ ref ∈ refs, WellTyped ref) :
    ∃ ref?, selectInboundAudio refs = .ok ref? ∧ ∀ ref ∈ ref?, ref ∈ refs := by
  induction refs with
  | nil => exact ⟨none, rfl, fun _ h => by cases h⟩
  | cons ref refs ih =>
    obtain ⟨b, hb⟩ := isAudio_ok (h ref List.mem_cons_self)
    obtain ⟨ref?, hselect, hmem⟩ := ih fun ref href => h ref (List.mem_cons_of_mem _ href)
    rw [selectInboundAudio, hb]
    cases b with
    | true =>
      refine ⟨some ref, rfl, ?_⟩
      intro ref' href'
      cases href'
      exact List.mem_cons_self
    | false => exact ⟨ref?, hselect, fun ref href => List.mem_cons_of_mem _ (hmem ref href)⟩

/-! ### The fetch -/

/-- The handler fetches `ref` and relays it in the format `format`. -/
structure Wants (message : InboundMessage) (ref : AttachmentRef) (format : PyStr) : Prop where
  selected : selectInboundAudio message.attachments = .ok (some ref)
  supported : audioFormat ref = .ok (some format)
  small : declaredTooLarge ref maxInboundAudioBytes = .ok false

/-- There is a payload, and it cannot be decoded. -/
def Undecodable (result : Json) : Prop :=
  (payloadOf result).truthy = true ∧ ∃ e, decodePayload (payloadOf result) = .error e

/-- The bytes of an answer are its decoded payload, if it has one. -/
theorem attachmentBytes_eq (result : Json) :
    attachmentBytes result = if (payloadOf result).truthy then
      some <$> decodePayload (payloadOf result) else .ok none := by
  -- an empty object has no payload, and any other falsy result is its own
  have hfalsy : result.truthy = false → (payloadOf result).truthy = false := by
    intro h
    cases result with
    | obj items =>
      cases items with
      | nil => rfl
      | cons item items => cases h
    | null => exact h
    | bool b => exact h
    | int i => exact h
    | float f => exact h
    | str s => exact h
    | arr items => exact h
  rw [attachmentBytes]
  cases ht : result.truthy with
  | false =>
    rw [hfalsy ht]
    rfl
  | true => cases (payloadOf result).truthy <;> rfl

/-- The fetch of an attachment fails on an undecodable payload only. -/
theorem attachmentBytes_error_iff {result : Json} :
    (∃ e, attachmentBytes result = .error e) ↔ Undecodable result := by
  rw [attachmentBytes_eq, Undecodable]
  cases (payloadOf result).truthy with
  | false => simp
  | true =>
    rw [if_pos rfl]
    cases hd : decodePayload (payloadOf result) with
    | ok data => simp [Functor.map, Except.map]
    | error e => simp [Functor.map, Except.map]

variable {message : InboundMessage}

/-- A reference in an unsupported format, or declared too large, is not fetched. -/
theorem runs_fetchInboundAudio {ref : AttachmentRef} {maxBytes : Nat} {t : List calls.Event}
    {r : Except PyError (Option InboundAudio)} (h : Runs (fetchInboundAudio ref maxBytes) t r) :
    (t = [] ∧ (r = .ok none ∨ (∃ e, r = .error e) ∧ ¬ WellTyped ref) ∧
        ∀ format, ¬ (audioFormat ref = .ok (some format) ∧
          declaredTooLarge ref maxBytes = .ok false)) ∨
      ∃ format result, (audioFormat ref = .ok (some format) ∧
        declaredTooLarge ref maxBytes = .ok false) ∧
        t = [⟨.rpcGetAttachment ref.id, result⟩] ∧
        r = (attachmentBytes result).map fun data => encodeAudio format data maxBytes := by
  rw [fetchInboundAudio] at h
  cases hformat : audioFormat ref with
  | error e =>
    rw [hformat] at h
    obtain ⟨rfl, rfl⟩ := runs_raise.mp h
    refine .inl ⟨rfl, .inr ⟨⟨e, rfl⟩, fun href => ?_⟩, fun format hok => by cases hok.1⟩
    obtain ⟨format?, hok⟩ := audioFormat_ok href
    rw [hformat] at hok
    cases hok
  | ok format? =>
    rw [hformat] at h
    cases format? with
    | none =>
      obtain ⟨rfl, rfl⟩ := runs_pure.mp h
      exact .inl ⟨rfl, .inl rfl, fun format hok => by cases hok.1⟩
    | some format =>
      -- the format is known, the size is checked next
      have hrest : Runs (do
          if ← Prog.ofExcept (declaredTooLarge ref maxBytes) then return none
          let data ← getAttachment ref.id
          return encodeAudio format data maxBytes : Prog calls PyError _) t r := h
      cases hlarge : declaredTooLarge ref maxBytes with
      | error e =>
        rw [hlarge] at hrest
        obtain ⟨rfl, rfl⟩ := runs_raise.mp hrest
        refine .inl ⟨rfl, .inr ⟨⟨e, rfl⟩, fun href => ?_⟩, fun format hok => by cases hok.2⟩
        obtain ⟨large, hok⟩ := declaredTooLarge_ok href maxBytes
        rw [hlarge] at hok
        cases hok
      | ok large =>
        rw [hlarge] at hrest
        cases large with
        | true =>
          obtain ⟨rfl, rfl⟩ := runs_pure.mp hrest
          exact .inl ⟨rfl, .inl rfl, fun format hok => by cases hok.2⟩
        | false =>
          -- only here is the attachment fetched
          obtain ⟨result, t', rfl, hbytes⟩ := runs_call.mp hrest
          refine .inr ⟨format, result, ⟨rfl, rfl⟩, ?_⟩
          have hdecode : Runs (Prog.ofExcept (attachmentBytes result) >>= fun data =>
              return encodeAudio format data maxBytes : Prog calls PyError _) t' r := hbytes
          cases hdata : attachmentBytes result with
          | ok data =>
            rw [hdata] at hdecode
            obtain ⟨rfl, rfl⟩ := runs_pure.mp hdecode
            exact ⟨rfl, rfl⟩
          | error e =>
            rw [hdata] at hdecode
            obtain ⟨rfl, rfl⟩ := runs_raise.mp hdecode
            exact ⟨rfl, rfl⟩

/-- A message without audio to fetch makes no call. Otherwise the attachment is fetched
once. Only a reference that is not well typed raises before the fetch. -/
theorem runs_audioOf {t : List calls.Event} {r : Except PyError (Option InboundAudio)}
    (h : Runs (audioOf message) t r) :
    (t = [] ∧ (r = .ok none ∨ (∃ e, r = .error e) ∧ ∃ ref ∈ message.attachments,
        ¬ WellTyped ref) ∧ ∀ ref format, ¬ Wants message ref format) ∨
      ∃ ref format result, Wants message ref format ∧
        t = [⟨.rpcGetAttachment ref.id, result⟩] ∧
        r = (attachmentBytes result).map fun data =>
          encodeAudio format data maxInboundAudioBytes := by
  have hbad : ¬ (∀ ref ∈ message.attachments, WellTyped ref) →
      ∃ ref ∈ message.attachments, ¬ WellTyped ref := by
    intro hall
    push Not at hall
    exact hall
  rw [audioOf] at h
  cases hselect : selectInboundAudio message.attachments with
  | error e =>
    rw [hselect] at h
    obtain ⟨rfl, rfl⟩ := runs_raise.mp h
    refine .inl ⟨rfl, .inr ⟨⟨e, rfl⟩, hbad fun hall => ?_⟩, fun ref format hw => ?_⟩
    · obtain ⟨ref?, hok, -⟩ := selectInboundAudio_ok hall
      rw [hselect] at hok
      cases hok
    · cases hselect.symm.trans hw.selected
  | ok ref? =>
    rw [hselect] at h
    cases ref? with
    | none =>
      obtain ⟨rfl, rfl⟩ := runs_pure.mp h
      exact .inl ⟨rfl, .inl rfl, fun ref format hw => by cases hselect.symm.trans hw.selected⟩
    | some ref =>
      -- Only the selected reference can be fetched.
      have honly : ∀ {ref' format}, Wants message ref' format → ref' = ref := by
        intro ref' format hw
        cases hselect.symm.trans hw.selected
        rfl
      have href : (∀ ref ∈ message.attachments, WellTyped ref) → WellTyped ref := by
        intro hall
        obtain ⟨ref?, hok, hmem⟩ := selectInboundAudio_ok hall
        rw [hselect] at hok
        cases hok
        exact hall ref (hmem ref rfl)
      have hfetch : Runs (fetchInboundAudio ref maxInboundAudioBytes) t r := h
      rcases runs_fetchInboundAudio hfetch with ⟨rfl, hr, hno⟩ | ⟨format, result, hok, ht⟩
      · refine .inl ⟨rfl, ?_, fun ref' format hw => ?_⟩
        · exact hr.imp_right fun ⟨herror, href'⟩ => ⟨herror, hbad fun hall => href' (href hall)⟩
        · obtain rfl := honly hw
          exact hno format ⟨hw.supported, hw.small⟩
      · exact .inr ⟨ref, format, result, ⟨hselect, hok.1, hok.2⟩, ht⟩

/-! ### The handler -/

/-- The messages that are submitted, with their audio. -/
def submissions (t : List calls.Event) : List (InboundMessage × Option InboundAudio) :=
  t.filterMap fun ev =>
    match ev.1 with
    | .submit message audio => some (message, audio)
    | _ => none

/-- The submission is the last call. -/
theorem runs_submit {audio : Option InboundAudio} {t : List calls.Event} {r : Except PyError Unit}
    (h : Runs (submit message audio >>= fun _ => return () : Prog calls PyError Unit) t r) :
    ∃ x, t = [⟨.submit message audio, x⟩] := by
  obtain ⟨x, t', rfl, hend⟩ := runs_call.mp h
  refine ⟨x, ?_⟩
  cases x with
  | ok b => rw [(runs_pure.mp hend).1]
  | error e => rw [(runs_raise.mp hend).1]

/-- The first call is the reaction, and its error is swallowed. -/
theorem runs_reaction {t : List calls.Event} {r : Except PyError Unit}
    (h : Runs (relay message) t r) :
    ∃ reaction t', t = ⟨.sendReaction message.chatId (lit "👀") message.userId
        message.timestampMs, reaction⟩ :: t' ∧
      Runs (do
        let audio ← audioOf message
        let _ ← submit message audio : Prog calls PyError Unit) t' r := by
  obtain ⟨reaction, t', rfl, hrest⟩ := runs_call.mp h
  refine ⟨reaction, t', rfl, ?_⟩
  cases reaction <;> exact hrest

/-- The handler reacts, fetches the audio and submits the message. If the fetch raises, it
ends there. -/
theorem runs_relay {t : List calls.Event} {r : Except PyError Unit}
    (h : Runs (relay message) t r) :
    ∃ reaction fetch rest a, t = ⟨.sendReaction message.chatId (lit "👀") message.userId
        message.timestampMs, reaction⟩ :: (fetch ++ rest) ∧ Runs (audioOf message) fetch a ∧
      submissions rest = match a with
        | .ok audio => [(message, audio)]
        | .error _ => [] := by
  obtain ⟨reaction, t', rfl, hbody⟩ := runs_reaction h
  rcases runs_bind.mp hbody with ⟨audio, fetch, rest, rfl, hfetch, hsubmit⟩ | ⟨e, rfl, hfetch⟩
  · obtain ⟨x, rfl⟩ := runs_submit hsubmit
    exact ⟨reaction, fetch, _, .ok audio, rfl, hfetch, rfl⟩
  · exact ⟨reaction, t', [], .error e, by rw [List.append_nil], hfetch, rfl⟩

/-- What the calls of one message return. -/
structure Outcomes where
  reaction : Except PyError Bool
  attachment : Json
  submission : Except PyError Bool

/-- The answers of an environment with these outcomes. -/
def Outcomes.answer (o : Outcomes) : (op : Op) → Op.Answer op
  | .sendReaction .. => o.reaction
  | .rpcGetAttachment _ => o.attachment
  | .submit .. => o.submission

/-- The calls of the handler for a message. -/
def relayCalls (o : Outcomes) (message : InboundMessage) : List calls.Event :=
  ((relay message).run (fun _ => o.answer) []).1

/-- The bytes of the audio of a message could be fetched, and `audio` is their encoding. -/
def Fetched (message : InboundMessage) (result : Json) (audio : InboundAudio) : Prop :=
  ∃ ref format data, Wants message ref format ∧ attachmentBytes result = .ok (some data) ∧
    data ≠ [] ∧ data.length ≤ maxInboundAudioBytes ∧ audio = ⟨b64encode data, format⟩

/-- The message is submitted once, with its audio if that could be fetched. -/
def RelayedOnce (message : InboundMessage) (result : Json) (t : List calls.Event) : Prop :=
  ∃ audio?, submissions t = [(message, audio?)] ∧
    ∀ audio, audio? = some audio ↔ Fetched message result audio

/-- Audio is made of bytes that are there and within the limit. -/
theorem encodeAudio_eq_some_iff {format : PyStr} {data? : Option Bytes} {maxBytes : Nat}
    {audio : InboundAudio} :
    encodeAudio format data? maxBytes = some audio ↔
      ∃ data, data? = some data ∧ data ≠ [] ∧ data.length ≤ maxBytes ∧
        audio = ⟨b64encode data, format⟩ := by
  cases data? with
  | none => simp [encodeAudio]
  | some data =>
    simp only [encodeAudio, List.isEmpty_iff]
    split_ifs with hnil hlarge
    · simp [hnil]
    · simp
      intro _ hle
      omega
    · simp only [Option.some.injEq]
      constructor
      · rintro rfl
        exact ⟨data, rfl, hnil, not_lt.mp hlarge, rfl⟩
      · rintro ⟨_, rfl, -, -, rfl⟩
        rfl

/-- The references that can be fetched are unique. -/
theorem Wants.unique {ref ref' : AttachmentRef} {format format' : PyStr}
    (h : Wants message ref format) (h' : Wants message ref' format') :
    ref = ref' ∧ format = format' := by
  have href := h.selected.symm.trans h'.selected
  cases href
  have hformat := h.supported.symm.trans h'.supported
  cases hformat
  exact ⟨rfl, rfl⟩

/-- The audio made of the payload that was fetched. -/
theorem encodeAudio_eq_some_iff_fetched {ref : AttachmentRef} {format : PyStr} {result : Json}
    {data? : Option Bytes} (hw : Wants message ref format)
    (hdata : attachmentBytes result = .ok data?) (audio : InboundAudio) :
    encodeAudio format data? maxInboundAudioBytes = some audio ↔ Fetched message result audio := by
  rw [encodeAudio_eq_some_iff]
  constructor
  · rintro ⟨data, rfl, hne, hle, rfl⟩
    exact ⟨ref, format, data, hw, hdata, hne, hle, rfl⟩
  · rintro ⟨ref', format', data, hw', hdata', hne, hle, rfl⟩
    obtain ⟨rfl, rfl⟩ := hw.unique hw'
    exact ⟨data, Except.ok.inj (hdata.symm.trans hdata'), hne, hle, rfl⟩

/-- A message is submitted exactly once, with its audio if that could be fetched, unless
there is audio to fetch and the fetched payload cannot be decoded. -/
theorem relayedOnce_iff (htyped : ∀ ref ∈ message.attachments, WellTyped ref)
    (o : Outcomes) :
    RelayedOnce message o.attachment (relayCalls o message) ↔
      ¬ ((∃ ref format, Wants message ref format) ∧ Undecodable o.attachment) := by
  have hruns := runs_run (fun _ => o.answer) (relay message) []
  obtain ⟨reaction, fetch, rest, a, ht, hfetch, hsub⟩ := runs_relay hruns
  have hanswer : ∀ ev ∈ ((relay message).run (fun _ => o.answer) []).1,
      ev.2 = o.answer ev.1 := answer_of_mem_run
  rw [relayCalls]
  rw [ht] at hanswer ⊢
  rcases runs_audioOf hfetch with ⟨rfl, hr, hno⟩ | ⟨ref, format, result, hw, rfl, rfl⟩
  · -- There is nothing to fetch.
    obtain rfl : a = .ok none := hr.resolve_right fun ⟨_, ref, href, hbad⟩ =>
      hbad (htyped ref href)
    refine iff_of_true ⟨none, hsub, fun audio => ?_⟩ fun ⟨⟨ref, format, hw⟩, _⟩ => hno _ _ hw
    refine iff_of_false (fun h => by cases h) ?_
    rintro ⟨ref, format, -, hw, -⟩
    exact hno _ _ hw
  · have hresult : result = o.attachment := hanswer ⟨.rpcGetAttachment ref.id, result⟩ (by simp)
    subst hresult
    cases hdata : attachmentBytes o.attachment with
    | ok data? =>
      rw [hdata] at hsub
      refine iff_of_true ⟨_, hsub, encodeAudio_eq_some_iff_fetched hw hdata⟩ ?_
      · rintro ⟨-, hbad⟩
        obtain ⟨e, he⟩ := attachmentBytes_error_iff.mpr hbad
        rw [hdata] at he
        cases he
    | error e =>
      rw [hdata] at hsub
      refine iff_of_false ?_ fun h =>
        h ⟨⟨ref, format, hw⟩, attachmentBytes_error_iff.mp ⟨e, hdata⟩⟩
      rintro ⟨audio?, honce, -⟩
      have hnone : submissions rest = [(message, audio?)] := honce
      rw [hsub] at hnone
      cases hnone

/-- A voice note. -/
def voiceNote : InboundMessage where
  userId := .str (lit "8c1f")
  chatId := .str (lit "8c1f")
  text := []
  timestampMs := 1700000000000
  attachments := [{ id := lit "a1", contentType := .str (lit "audio/aac") }]

/-- The voice note is well typed. -/
theorem voiceNote_typed : ∀ ref ∈ voiceNote.attachments, WellTyped ref := by
  intro ref href
  rw [List.mem_singleton.mp href]
  exact ⟨.inr ⟨_, rfl⟩, .inl rfl, .inl rfl⟩

/-- A voice note with three bytes is submitted once. -/
theorem relayedOnce_iff_voiceNote :
    RelayedOnce voiceNote (.str (lit "YWJj"))
      (relayCalls ⟨.ok true, .str (lit "YWJj"), .ok true⟩ voiceNote) := by
  refine (relayedOnce_iff voiceNote_typed ⟨.ok true, .str (lit "YWJj"), .ok true⟩).mpr ?_
  rintro ⟨-, hbad⟩
  obtain ⟨e, he⟩ := attachmentBytes_error_iff.mpr hbad
  cases he

/-- A voice note whose payload lacks its padding is not submitted. -/
theorem not_relayedOnce_padding :
    (∀ ref ∈ voiceNote.attachments, WellTyped ref) ∧
      ¬ RelayedOnce voiceNote (.str (lit "YWI"))
        (relayCalls ⟨.ok true, .str (lit "YWI"), .ok true⟩ voiceNote) := by
  refine ⟨voiceNote_typed, ?_⟩
  rintro ⟨audio?, h, -⟩
  have hnone : submissions (relayCalls ⟨.ok true, .str (lit "YWI"), .ok true⟩ voiceNote) = [] :=
    by rfl
  rw [hnone] at h
  cases h

end SignalGateway.Proofs.Relay
