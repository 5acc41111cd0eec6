import SignalGateway.Proofs.Relay

/-!
# `SignalGateway.Proofs.AudioType`: the declared type and the extension

A reference that declares a content type is audio when the type is `audio/*`, and one that
declares none when its filename has an audio extension (`DeclaredAudio`). `is_audio` also
looks at the extension behind a declared type of another kind. `respectsTypes_iff` says for
which lists that changes what is selected and fetched: those in which a misjudged reference
has no audio in front of it.

`.mp4`, `.webm` and `.ogg` are in the table of audio extensions and are video containers too.

`Misjudged` has three cases: the two functions disagree, or a field that they look at is no
string, on which the lookup raises. `isAudio_of_not_misjudged` and `isAudio_of_misjudged` say
that `is_audio` is right on all other references and wrong on these.

The proof of `respectsTypes_iff` is an induction over the attachments with `firstAudio_cons` and
`reachesMisjudged_cons`: a reference that is judged rightly either ends the search or is passed
over. `not_respectsTypes_video` is a video with an audio extension.
-/

set_option autoImplicit false

namespace SignalGateway.Proofs.Relay

open SignalGateway.Envelope SignalGateway.Media SignalGateway.Relay
open SignalGateway.Proofs.Envelope
open Prog

/-! ### The law -/

/-- The declared type is `audio/*`. -/
def AudioType (ref : AttachmentRef) : Prop :=
  ∃ s, ref.contentType = .str s ∧ lit "audio/" <+: lower s

/-- The filename has one of the audio extensions. -/
def AudioExtension (ref : AttachmentRef) : Prop :=
  ∃ s, ref.filename = .str s ∧ (audioExtToFormat.lookup (lower (pathSuffix s))).isSome = true

/-- The reference is audio by its declared type, or by its extension if it declares none. -/
def DeclaredAudio (ref : AttachmentRef) : Prop :=
  if ref.contentType.truthy then AudioType ref else AudioExtension ref

/-- The first audio reference, or `none` if there is none. -/
def FirstAudio (refs : List AttachmentRef) : Option AttachmentRef → Prop
  | none => ∀ ref ∈ refs, ¬ DeclaredAudio ref
  | some ref => DeclaredAudio ref ∧
      ∃ front back, refs = front ++ ref :: back ∧ ∀ a ∈ front, ¬ DeclaredAudio a

/-- The first audio reference is selected, and the handler fetches no other one. -/
structure RespectsTypes (message : InboundMessage) : Prop where
  selected : ∃ ref?, selectInboundAudio message.attachments = .ok ref? ∧
    FirstAudio message.attachments ref?
  fetched : ∀ t r, Runs (relay message) t r → ∀ ev ∈ t, ∀ id, ev.1 = .rpcGetAttachment id →
    ∃ ref, ref.id = id ∧ FirstAudio message.attachments (some ref)

/-- A reference that `is_audio` gets wrong: it declares another type but has an audio
extension. The other two cases are fields that are not strings, on which it raises. -/
inductive Misjudged (ref : AttachmentRef) : Prop where
  | extension (hdeclared : ref.contentType.truthy = true) (htype : ¬ AudioType ref)
      (hext : AudioExtension ref)
  | contentType (hdeclared : ref.contentType.truthy = true)
      (hstr : ∀ s, ref.contentType ≠ .str s)
  | filename (htype : ref.contentType.truthy = true → ¬ AudioType ref)
      (htruthy : ref.filename.truthy = true) (hstr : ∀ s, ref.filename ≠ .str s)

/-! ### One reference -/

/-- A content type that is text is looked up without an error. -/
theorem hasAudioType_eq {ref : AttachmentRef}
    (h : ref.contentType.truthy = true → ∃ s, ref.contentType = .str s) :
    ∃ b, hasAudioType ref = .ok b ∧
      (b = true ↔ ref.contentType.truthy = true ∧ AudioType ref) := by
  rw [hasAudioType]
  by_cases ht : ref.contentType.truthy = true
  · obtain ⟨s, hs⟩ := h ht
    rw [if_pos ht, hs]
    refine ⟨_, rfl, ?_⟩
    rw [List.isPrefixOf_iff_prefix]
    constructor
    · exact fun hprefix => ⟨hs ▸ ht, s, hs, hprefix⟩
    · rintro ⟨-, s', hs', hprefix⟩
      cases hs.symm.trans hs'
      exact hprefix
  · rw [if_neg ht]
    exact ⟨false, rfl, by simp [ht]⟩

/-- A file name that is text is looked up without an error. -/
theorem suffixFormat_eq {ref : AttachmentRef}
    (h : ref.filename.truthy = true → ∃ s, ref.filename = .str s) :
    ∃ format, suffixFormat ref = .ok format ∧ (format.isSome = true ↔ AudioExtension ref) := by
  rw [suffixFormat]
  by_cases ht : ref.filename.truthy = true
  · obtain ⟨s, hs⟩ := h ht
    rw [if_pos ht, hs]
    refine ⟨_, rfl, ?_⟩
    constructor
    · exact fun hsome => ⟨s, hs, hsome⟩
    · rintro ⟨s', hs', hsome⟩
      cases hs.symm.trans hs'
      exact hsome
  · rw [if_neg ht]
    refine ⟨none, rfl, iff_of_false (by simp) ?_⟩
    -- an empty name has no extension
    rintro ⟨s, hs, hsome⟩
    rw [hs] at ht
    have hnil : s = [] := by simpa [Json.truthy] using ht
    rw [hnil] at hsome
    revert hsome
    decide

/-- Without an audio type the extension decides. -/
theorem isAudio_eq_suffix {ref : AttachmentRef} (h : hasAudioType ref = .ok false) :
    isAudio ref = (suffixFormat ref).map Option.isSome := by
  rw [isAudio, h]
  show (suffixFormat ref >>= fun format => pure format.isSome) = _
  cases suffixFormat ref <;> rfl

/-- A reference that is not misjudged is audio exactly if it is declared as such. -/
theorem isAudio_of_not_misjudged {ref : AttachmentRef} (h : ¬ Misjudged ref) :
    ∃ b, isAudio ref = .ok b ∧ (b = true ↔ DeclaredAudio ref) := by
  have hcontent : ref.contentType.truthy = true → ∃ s, ref.contentType = .str s := by
    intro ht
    by_contra hno
    exact h (.contentType ht fun s hs => hno ⟨s, hs⟩)
  obtain ⟨b, hb, hiff⟩ := hasAudioType_eq hcontent
  rw [DeclaredAudio]
  cases b with
  | true =>
    obtain ⟨ht, htype⟩ := hiff.mp rfl
    rw [isAudio, hb]
    exact ⟨true, rfl, by simp [ht, htype]⟩
  | false =>
    -- the extension decides, and no other type is declared in front of it
    have hother : ref.contentType.truthy = true → ¬ AudioType ref := fun ht htype => by
      cases hiff.mpr ⟨ht, htype⟩
    have hname : ref.filename.truthy = true → ∃ s, ref.filename = .str s := by
      intro ht
      by_contra hno
      exact h (.filename hother ht fun s hs => hno ⟨s, hs⟩)
    obtain ⟨format, hformat, hext⟩ := suffixFormat_eq hname
    refine ⟨format.isSome, by rw [isAudio_eq_suffix hb, hformat]; rfl, ?_⟩
    rw [hext]
    split
    · next ht => exact iff_of_false (fun hext => h (.extension ht (hother ht) hext)) (hother ht)
    · rfl

/-- A content type that is no text raises. -/
theorem isAudio_of_contentType {ref : AttachmentRef} (hdeclared : ref.contentType.truthy = true)
    (hstr : ∀ s, ref.contentType ≠ .str s) : ∃ e, isAudio ref = .error e := by
  have hlower : lowerOf ref.contentType = .error .attributeError := by
    unfold lowerOf
    split
    · next s hs => exact absurd hs (hstr s)
    · rfl
  rw [isAudio, hasAudioType, if_pos hdeclared, hlower]
  exact ⟨_, rfl⟩

/-- A misjudged reference is taken for audio, or raises. -/
theorem isAudio_of_misjudged {ref : AttachmentRef} (h : Misjudged ref) :
    (isAudio ref = .ok true ∧ ¬ DeclaredAudio ref) ∨ ∃ e, isAudio ref = .error e := by
  by_cases hcontent : ref.contentType.truthy = true → ∃ s, ref.contentType = .str s
  · obtain ⟨b, hb, hiff⟩ := hasAudioType_eq hcontent
    cases h with
    | extension hdeclared htype hext =>
      have hother : b = false := Bool.not_eq_true _ ▸ fun ht => htype (hiff.mp ht).2
      subst hother
      have hname : ref.filename.truthy = true → ∃ s, ref.filename = .str s :=
        fun _ => hext.imp fun _ => And.left
      obtain ⟨format, hformat, hsuffix⟩ := suffixFormat_eq hname
      refine .inl ⟨?_, by rwa [DeclaredAudio, if_pos hdeclared]⟩
      rw [isAudio_eq_suffix hb, hformat, ← hsuffix.mpr hext]
      rfl
    | contentType hdeclared hstr => exact .inr (isAudio_of_contentType hdeclared hstr)
    | filename htype htruthy hstr =>
      have hother : b = false := Bool.not_eq_true _ ▸ fun ht => htype (hiff.mp ht).1 (hiff.mp ht).2
      subst hother
      have hsuffix : suffixOf ref.filename = .error .typeError := by
        unfold suffixOf
        split
        · next s hs => exact absurd hs (hstr s)
        · rfl
      right
      rw [isAudio_eq_suffix hb, suffixFormat, if_pos htruthy, hsuffix]
      exact ⟨_, rfl⟩
  · push Not at hcontent
    exact .inr (isAudio_of_contentType hcontent.1 hcontent.2)

/-! ### The list -/

/-- An element with others in front of it, behind one that it is not. -/
theorem exists_front_cons {α : Type} {p : α → Prop} {x a : α} (hne : x ≠ a) (l : List α) :
    (∃ front back, x :: l = front ++ a :: back ∧ ∀ b ∈ front, p b) ↔
      p x ∧ ∃ front back, l = front ++ a :: back ∧ ∀ b ∈ front, p b := by
  constructor
  · rintro ⟨front, back, heq, hfront⟩
    cases front with
    | nil =>
      cases heq
      exact absurd rfl hne
    | cons b front =>
      cases heq
      obtain ⟨hx, hfront⟩ := List.forall_mem_cons.mp hfront
      exact ⟨hx, front, back, rfl, hfront⟩
  · rintro ⟨hx, front, back, rfl, hfront⟩
    exact ⟨x :: front, back, rfl, List.forall_mem_cons.mpr ⟨hx, hfront⟩⟩

/-- A reference that is no audio is passed over. -/
theorem firstAudio_cons {ref : AttachmentRef} (h : ¬ DeclaredAudio ref)
    (refs : List AttachmentRef) (ref? : Option AttachmentRef) :
    FirstAudio (ref :: refs) ref? ↔ FirstAudio refs ref? := by
  cases ref? with
  | none => simp [FirstAudio, h]
  | some found =>
    refine and_congr_right fun hfound => ?_
    have hne : ref ≠ found := fun heq => h (heq ▸ hfound)
    rw [exists_front_cons hne, and_iff_right h]

/-- A misjudged reference with no audio in front of it. -/
def ReachesMisjudged (refs : List AttachmentRef) : Prop :=
  ∃ front ref back, refs = front ++ ref :: back ∧ Misjudged ref ∧
    ∀ a ∈ front, ¬ DeclaredAudio a

/-- A reference that is judged rightly ends the search if it is audio. -/
theorem reachesMisjudged_cons {ref : AttachmentRef} (h : ¬ Misjudged ref)
    (refs : List AttachmentRef) :
    ReachesMisjudged (ref :: refs) ↔ ¬ DeclaredAudio ref ∧ ReachesMisjudged refs := by
  have hne : ∀ bad, Misjudged bad → ref ≠ bad := by
    rintro bad hbad rfl
    exact h hbad
  constructor
  · rintro ⟨front, bad, back, heq, hbad, hfront⟩
    obtain ⟨hother, front, back, heq, hfront⟩ :=
      (exists_front_cons (hne bad hbad) refs).mp ⟨front, back, heq, hfront⟩
    exact ⟨hother, front, bad, back, heq, hbad, hfront⟩
  · rintro ⟨hother, front, bad, back, heq, hbad, hfront⟩
    obtain ⟨front, back, heq, hfront⟩ :=
      (exists_front_cons (hne bad hbad) refs).mpr ⟨hother, front, back, heq, hfront⟩
    exact ⟨front, bad, back, heq, hbad, hfront⟩

/-- The first audio reference is selected exactly where no misjudged reference stands in front
of it. -/
theorem selectInboundAudio_iff (refs : List AttachmentRef) :
    (∃ ref?, selectInboundAudio refs = .ok ref? ∧ FirstAudio refs ref?)
      ↔ ¬ ReachesMisjudged refs := by
  induction refs with
  | nil =>
    refine iff_of_true ⟨none, rfl, fun ref href => by cases href⟩ ?_
    rintro ⟨front, ref, back, heq, -⟩
    simp at heq
  | cons ref refs ih =>
    by_cases hbad : Misjudged ref
    · -- it is selected though it is no audio, or the selection raises
      refine iff_of_false ?_ (not_not.mpr ⟨[], ref, refs, rfl, hbad, by simp⟩)
      rintro ⟨ref?, hselect, hfirst⟩
      rw [selectInboundAudio] at hselect
      rcases isAudio_of_misjudged hbad with ⟨htrue, hother⟩ | ⟨e, herror⟩
      · rw [htrue] at hselect
        cases hselect
        exact hother hfirst.1
      · rw [herror] at hselect
        cases hselect
    · obtain ⟨b, hb, hiff⟩ := isAudio_of_not_misjudged hbad
      rw [reachesMisjudged_cons hbad, selectInboundAudio, hb]
      cases b with
      | true =>
        have haudio := hiff.mp rfl
        refine iff_of_true ⟨some ref, rfl, haudio, [], refs, rfl, by simp⟩ fun h => h.1 haudio
      | false =>
        have hother : ¬ DeclaredAudio ref := fun haudio => by cases hiff.mpr haudio
        simp only [firstAudio_cons hother, hother, not_false_eq_true, true_and]
        exact ih

/-! ### The handler -/

variable {message : InboundMessage}

/-- The handler fetches at most the reference that is selected. -/
theorem wants_of_fetched {t : List calls.Event} {r : Except PyError Unit}
    (h : Runs (relay message) t r) {ev : calls.Event} (hev : ev ∈ t) {id : PyStr}
    (hid : ev.1 = .rpcGetAttachment id) : ∃ ref format, Wants message ref format ∧ ref.id = id := by
  obtain ⟨reaction, t', rfl, hbody⟩ := runs_reaction h
  obtain ⟨fetch, rest, a, rfl, hfetch, hsubmit⟩ := hbody.start
  rcases List.mem_cons.mp hev with rfl | hev
  · cases hid
  rcases List.mem_append.mp hev with hev | hev
  · rcases runs_audioOf hfetch with ⟨rfl, -, -⟩ | ⟨ref, format, result, hw, rfl, -⟩
    · cases hev
    · rw [List.mem_singleton.mp hev] at hid
      cases hid
      exact ⟨ref, format, hw, rfl⟩
  · -- behind the fetch only the submission is called
    rcases hsubmit with rfl | ⟨audio, -, hsubmit⟩
    · cases hev
    · obtain ⟨x, rfl⟩ := runs_submit hsubmit
      rw [List.mem_singleton.mp hev] at hid
      cases hid

/-- The declared type is respected unless a misjudged reference stands in front of the first
audio. -/
theorem respectsTypes_iff (message : InboundMessage) :
    RespectsTypes message ↔ ¬ ReachesMisjudged message.attachments := by
  rw [← selectInboundAudio_iff]
  refine ⟨RespectsTypes.selected, fun hselected => ⟨hselected, ?_⟩⟩
  intro t r h ev hev id hid
  -- What is fetched is the attachment that is selected.
  obtain ⟨ref, format, hw, href⟩ := wants_of_fetched h hev hid
  obtain ⟨ref?, hselect, hfirst⟩ := hselected
  cases hselect.symm.trans hw.selected
  exact ⟨ref, href, hfirst⟩

/-- A message with a video. -/
def videoMessage : InboundMessage where
  userId := .str (lit "8c1f")
  chatId := .str (lit "8c1f")
  text := []
  timestampMs := 1700000000000
  attachments := [{ id := lit "v1", contentType := .str (lit "video/mp4"),
                    filename := .str (lit "clip.mp4") }]

/-- The video is selected, and its bytes go to the worker as audio. -/
theorem not_respectsTypes_video :
    ¬ RespectsTypes videoMessage ∧
      (submissions (relayCalls ⟨.ok true, .str (lit "YWJj"), .ok true⟩ videoMessage)).map
          (fun sub => sub.2.map InboundAudio.audioFormat) = [some (lit "m4a")] := by
  refine ⟨fun h => ?_, by decide +kernel⟩
  obtain ⟨ref?, hselect, hfirst⟩ := h.selected
  have hvideo : selectInboundAudio videoMessage.attachments
      = .ok videoMessage.attachments.head? := by rfl
  cases hvideo.symm.trans hselect
  obtain ⟨s, hs, hprefix⟩ : AudioType _ := hfirst.1
  cases hs
  revert hprefix
  decide

end SignalGateway.Proofs.Relay
