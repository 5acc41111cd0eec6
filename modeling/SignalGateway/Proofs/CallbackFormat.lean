import SignalGateway.Proofs.Routing

/-!
# `SignalGateway.Proofs.CallbackFormat`: which callback bodies are accepted

`parse_callback_payload` accepts the objects with a known type, a user id and a message key
(`Recognized`), and reads their attachments in order. `parsesExactly_iff`: it does so without
raising unless the type of an object is a list or an object. The set membership hashes the
type, and these values have no hash.

`ParsesExactly` has three parts: acceptance, the fields of the payload, and its attachments.
`EntryOf` says what an entry of the attachments stands for, field by field, and
`forall₂_parseOutboundAttachments` that the attachments are exactly the entries with a URL, in
their order. An entry without a URL is dropped, and does no harm to the others.

The counterexample `not_parsesExactly_listType` is a body with a list for its type.
-/

set_option autoImplicit false

namespace SignalGateway.Proofs.Dispatch

open SignalGateway.Dispatch

/-! ### The format -/

/-- A string that is not empty. -/
def IsText (x : Json) : Prop := ∃ s, x = .str s ∧ s ≠ []

/-- The bodies of the callback format. -/
def Recognized (body : Json) : Prop :=
  ∃ items, body = .obj items ∧
    (∃ type : CallbackType, Json.lookup items "type" = .str (lit type.name)) ∧
    IsText (Json.lookup items "user_id") ∧ IsText (Json.lookup items "message_key")

/-- Whether an entry of the attachments is an object with a URL that is not empty. -/
def hasUrl : Json → Bool
  | .obj items =>
      match Json.lookup items "url" with
      | .str url => !url.isEmpty
      | _ => false
  | _ => false

/-- The entries with a URL, in order. -/
def urlEntries (body : Json) : List Json :=
  match body with
  | .obj items =>
      match Json.lookup items "attachments" with
      | .arr entries => entries.filter hasUrl
      | _ => []
  | _ => []

/-- The attachment that an entry stands for. -/
def EntryOf (entry : Json) (att : OutboundAttachment) : Prop :=
  ∃ items, entry = .obj items ∧ Json.lookup items "url" = .str att.url ∧
    att.filename = (Json.lookup items "filename").strOrNone ∧
    att.mimeType = (Json.lookup items "mime_type").strOrNone ∧
    att.sizeBytes = (Json.lookup items "size_bytes").intOrNone

/-- The parser accepts the body exactly if it has the format, returns `None` otherwise, and
the attachments of the payload are those of the body. -/
structure ParsesExactly (body : Json) : Prop where
  accepts_iff : (∃ payload, parseCallbackPayload body = .ok (some payload)) ↔ Recognized body
  rejects : ¬ Recognized body → parseCallbackPayload body = .ok none
  attachments : ∀ payload, parseCallbackPayload body = .ok (some payload) →
    List.Forall₂ EntryOf (urlEntries body) payload.attachments

/-- An object whose type is a list or an object. -/
def UnhashableType (body : Json) : Prop :=
  ∃ items, body = .obj items ∧ (Json.lookup items "type").hashable = false

/-! ### The fields -/

/-- A field is taken if it is a string that is not empty. -/
theorem strOrNone_eq_some_iff {x : Json} {s : PyStr} :
    x.strOrNone = some s ↔ x = .str s ∧ s ≠ [] := by
  cases x with
  | str t =>
    cases t with
    | nil => simp [Json.strOrNone]
    | cons c t =>
      simp only [Json.strOrNone, List.isEmpty_cons, Bool.false_eq_true, if_false,
        Option.some.injEq, Json.str.injEq]
      constructor
      · rintro rfl
        exact ⟨rfl, List.cons_ne_nil c t⟩
      · exact fun h => h.1
  | _ => simp [Json.strOrNone]

/-- A text field is one that is taken. -/
theorem isText_iff {x : Json} : IsText x ↔ x.strOrNone.isSome = true := by
  rw [Option.isSome_iff_exists, IsText]
  exact exists_congr fun s => strOrNone_eq_some_iff.symm

/-- A type with a hash is looked up without raising. -/
theorem lookupType_of_hashable {type : Json} (h : type.hashable = true) :
    ∃ type?, lookupType type = .ok type? ∧
      ∀ t, type? = some t ↔ type = .str (lit t.name) := by
  cases type with
  | str s =>
    refine ⟨_, rfl, fun t => ?_⟩
    constructor
    · intro hfind
      have hname := List.find?_some hfind
      rw [beq_iff_eq.mp hname]
    · intro hs
      have hok := Routing.lookupType_name t
      rw [← hs] at hok
      exact Except.ok.inj hok
  | arr items => cases h
  | obj items => cases h
  | null => exact ⟨none, rfl, by simp⟩
  | bool b => exact ⟨none, rfl, by simp⟩
  | int i => exact ⟨none, rfl, by simp⟩
  | float x => exact ⟨none, rfl, by simp⟩

/-- A type without a hash cannot be looked up. -/
theorem lookupType_of_unhashable {type : Json} (h : type.hashable = false) :
    lookupType type = .error .typeError := by
  cases type with
  | arr items => rfl
  | obj items => rfl
  | _ => cases h

/-! ### The attachments -/

/-- An entry has a URL if that field is taken. -/
theorem hasUrl_obj (items : List (PyStr × Json)) :
    hasUrl (.obj items) = (Json.lookup items "url").strOrNone.isSome := by
  rw [hasUrl]
  cases Json.lookup items "url" with
  | str url => cases url <;> rfl
  | _ => rfl

/-- An entry is skipped, or it has a URL and is read field by field. -/
theorem parseOutboundAttachment_cases (entry : Json) :
    hasUrl entry = false ∧ parseOutboundAttachment entry = none ∨
      hasUrl entry = true ∧
        ∃ att, parseOutboundAttachment entry = some att ∧ EntryOf entry att := by
  cases entry with
  | obj items =>
    rw [hasUrl_obj, parseOutboundAttachment]
    cases hurl : (Json.lookup items "url").strOrNone with
    | none => exact .inl ⟨rfl, rfl⟩
    | some url =>
      have hstr : Json.lookup items "url" = .str url := (strOrNone_eq_some_iff.mp hurl).1
      exact .inr ⟨rfl, _, rfl, items, rfl, hstr, rfl, rfl, rfl⟩
  | _ => exact .inl ⟨rfl, rfl⟩

/-- The entries with a URL are parsed, in order. -/
theorem forall₂_filterMap_parseOutboundAttachment (entries : List Json) :
    List.Forall₂ EntryOf (entries.filter hasUrl) (entries.filterMap parseOutboundAttachment) := by
  induction entries with
  | nil => exact .nil
  | cons entry entries ih =>
    rcases parseOutboundAttachment_cases entry with ⟨hno, hnone⟩ | ⟨hyes, att, hsome, hatt⟩
    · rw [List.filter_cons_of_neg (by simp [hno]), List.filterMap_cons_none hnone]
      exact ih
    · rw [List.filter_cons_of_pos hyes, List.filterMap_cons_some hsome]
      exact .cons hatt ih

/-- The attachments are the entries with a URL, in order. -/
theorem forall₂_parseOutboundAttachments (items : List (PyStr × Json)) :
    List.Forall₂ EntryOf (urlEntries (.obj items))
      (parseOutboundAttachments (Json.lookup items "attachments")) := by
  rw [urlEntries]
  cases Json.lookup items "attachments" with
  | arr entries => exact forall₂_filterMap_parseOutboundAttachment entries
  | _ => exact .nil

/-! ### The body -/

/-- The fields of an object with the format. -/
theorem recognized_obj_iff (items : List (PyStr × Json)) :
    Recognized (.obj items) ↔
      (∃ type : CallbackType, Json.lookup items "type" = .str (lit type.name)) ∧
        (Json.lookup items "user_id").strOrNone.isSome = true ∧
        (Json.lookup items "message_key").strOrNone.isSome = true := by
  rw [← isText_iff, ← isText_iff]
  constructor
  · rintro ⟨_, ⟨⟩, h⟩
    exact h
  · exact fun h => ⟨items, rfl, h⟩

/-- What the parser does with an object whose type has a hash. -/
theorem parseCallbackPayload_cases (items : List (PyStr × Json))
    (h : (Json.lookup items "type").hashable = true) :
    ¬ Recognized (.obj items) ∧ parseCallbackPayload (.obj items) = .ok none ∨
      Recognized (.obj items) ∧ ∃ payload, parseCallbackPayload (.obj items) = .ok (some payload) ∧
        payload.attachments = parseOutboundAttachments (Json.lookup items "attachments") := by
  obtain ⟨type?, hlookup, htype⟩ := lookupType_of_hashable h
  rw [recognized_obj_iff, parseCallbackPayload, hlookup]
  cases type? with
  | none =>
    refine .inl ⟨?_, rfl⟩
    rintro ⟨⟨t, ht⟩, -⟩
    cases (htype t).mpr ht
  | some type =>
    have hknown : ∃ t : CallbackType, Json.lookup items "type" = .str (lit t.name) :=
      ⟨type, (htype type).mp rfl⟩
    cases huser : (Json.lookup items "user_id").strOrNone with
    | none => exact .inl ⟨by simp, rfl⟩
    | some userId =>
      cases hkey : (Json.lookup items "message_key").strOrNone with
      | none => exact .inl ⟨by simp, rfl⟩
      | some messageKey => exact .inr ⟨⟨hknown, rfl, rfl⟩, _, rfl, rfl⟩

/-- A type without a hash raises. -/
theorem parseCallbackPayload_unhashable {items : List (PyStr × Json)}
    (h : (Json.lookup items "type").hashable = false) :
    parseCallbackPayload (.obj items) = .error .typeError := by
  rw [parseCallbackPayload, lookupType_of_unhashable h]
  rfl

/-- A type that has no hash is no known type. -/
theorem not_recognized_unhashable {items : List (PyStr × Json)}
    (h : (Json.lookup items "type").hashable = false) : ¬ Recognized (.obj items) := by
  rintro ⟨_, ⟨⟩, ⟨t, ht⟩, -⟩
  rw [ht] at h
  cases h

/-- Only an object has the format. -/
theorem not_recognized_of_not_obj {body : Json} (h : ∀ items, body ≠ .obj items) :
    ¬ Recognized body := by
  rintro ⟨items, rfl, -⟩
  exact h items rfl

/-- A body that is not an object has no payload. -/
theorem parseCallbackPayload_of_not_obj {body : Json} (h : ∀ items, body ≠ .obj items) :
    parseCallbackPayload body = .ok none := by
  cases body with
  | obj items => exact absurd rfl (h items)
  | _ => rfl

/-- A body that is not recognised is refused without an error. -/
theorem parsesExactly_of_none {body : Json} (hr : ¬ Recognized body)
    (hp : parseCallbackPayload body = .ok none) : ParsesExactly body where
  accepts_iff := by
    constructor
    · rintro ⟨payload, h⟩
      rw [hp] at h
      cases h
    · exact fun h => absurd h hr
  rejects _ := hp
  attachments payload h := by
    rw [hp] at h
    cases h

/-- The parser accepts exactly its format and does not raise, unless the type of an object
is a list or an object. -/
theorem parsesExactly_iff (body : Json) : ParsesExactly body ↔ ¬ UnhashableType body := by
  constructor
  · rintro hexact ⟨items, rfl, h⟩
    have hnone := hexact.rejects (not_recognized_unhashable h)
    rw [parseCallbackPayload_unhashable h] at hnone
    cases hnone
  · intro h
    by_cases hobj : ∃ items, body = .obj items
    · obtain ⟨items, rfl⟩ := hobj
      have hhash : (Json.lookup items "type").hashable = true := by
        by_contra hno
        exact h ⟨items, rfl, Bool.eq_false_iff.mpr hno⟩
      rcases parseCallbackPayload_cases items hhash with ⟨hr, hp⟩ | ⟨hr, payload, hp, hatt⟩
      · exact parsesExactly_of_none hr hp
      · -- there is one payload, and its attachments are those of the body
        refine ⟨⟨fun _ => hr, fun _ => ⟨payload, hp⟩⟩, fun hno => absurd hr hno, ?_⟩
        intro payload' hp'
        cases hp.symm.trans hp'
        rw [hatt]
        exact forall₂_parseOutboundAttachments items
    · have hno : ∀ items, body ≠ .obj items := fun items heq => hobj ⟨items, heq⟩
      exact parsesExactly_of_none (not_recognized_of_not_obj hno)
        (parseCallbackPayload_of_not_obj hno)

/-- A body with a list for its type raises. -/
theorem not_parsesExactly_listType :
    ¬ ParsesExactly (.obj [(lit "type", .arr []), (lit "user_id", .str (lit "user")),
      (lit "message_key", .str (lit "key"))]) := by
  intro hexact
  have hnone := hexact.rejects (by
    rintro ⟨_, ⟨⟩, ⟨t, ht⟩, -⟩
    cases ht)
  cases hnone

end SignalGateway.Proofs.Dispatch
