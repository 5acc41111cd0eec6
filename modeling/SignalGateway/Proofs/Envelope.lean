import SignalGateway.Envelope

/-!
# `SignalGateway.Proofs.Envelope`: what an accepted envelope looks like

`parse_of_ok` lists what `parse_envelope` computed and checked on the way to a message. All
other facts about accepted envelopes are read off it. `acceptance_of_ok` adds the tests the
filters ran, and `Acceptance.parse_eq` is the converse: these tests and values make the
message.

The fields of `Parse` stand in the order of the source. Each is an equation about one value or one
test, so a proof about a single step of `parse_envelope` reads one field. `bind_ok_iff` and
`ite_none_eq_some` peel the program apart, and no later proof does this again.

`natAbs_lt_of_fresh` is about the age test: a timestamp that passes it is small enough to be
written in decimal, so `str` of it does not raise. The quotient of a very large integer overflows,
and that of a very large float is no recent time.
-/

set_option autoImplicit false

namespace SignalGateway.Proofs.Envelope

open SignalGateway.Envelope

/-- A sequence succeeds when both parts do. -/
theorem bind_ok_iff {ε α β : Type} {x : Except ε α} {f : α → Except ε β} {b : β} :
    (x >>= f) = .ok b ↔ ∃ a, x = .ok a ∧ f a = .ok b := by
  cases x with
  | ok a =>
    constructor
    · exact fun h => ⟨a, rfl, h⟩
    · rintro ⟨_, h, hf⟩
      cases h
      exact hf
  | error e =>
    constructor
    · intro h
      cases h
    · rintro ⟨_, h, -⟩
      cases h

/-- A filter that lets a message through did not apply. -/
theorem ite_none_eq_some {α : Type} {c : Bool} {x : Except PyError (Option α)} {a : α}
    (h : (if c then pure none else x) = .ok (some a)) : c = false ∧ x = .ok (some a) := by
  cases c with
  | false => exact ⟨rfl, h⟩
  | true => cases h

/-- The message of an accepted envelope. -/
theorem eq_accepted {α : Type} {x : Except PyError (Option α)}
    (h : x.toOption.join.isSome = true) : x = .ok (some (x.toOption.join.get h)) := by
  cases x with
  | error e => cases h
  | ok a =>
    cases a with
    | none => cases h
    | some a => rfl

/-- Only the same string is equal to a string. -/
theorem eq_of_eqStr {x : Json} {s : PyStr} (h : x.eqStr s = true) : x = .str s := by
  cases x with
  | str t => rw [beq_iff_eq.mp h]
  | null => cases h
  | bool b => cases h
  | int i => cases h
  | float f => cases h
  | arr items => cases h
  | obj items => cases h

/-- Only a string has the method `strip`. -/
theorem asText_ok {x : Json} {text : PyStr} (h : asText x = .ok text) : x = .str text := by
  cases x with
  | str s =>
    cases h
    rfl
  | null => cases h
  | bool b => cases h
  | int i => cases h
  | float f => cases h
  | arr items => cases h
  | obj items => cases h

/-- What `parse_envelope` computes and checks on the way to a message. -/
structure Parse (repr : Json → Except PyError PyStr) (raw : Json) (settings : Settings)
    (clock : PyFloat) (message : InboundMessage) where
  envelope : Json
  fallback : Json
  dataMessage : Json
  groupInfo : Json
  body : Json
  mentions : Json
  quote : Json
  rawAttachments : Json
  timestamp : Json
  envelope_eq : raw.getOr? "envelope" raw = .ok envelope
  not_metadata : isMetadata envelope = .ok false
  sourceNumber_eq : envelope.get? "sourceNumber" = .ok message.sourceNumber
  sourceUuid_eq : envelope.get? "sourceUuid" = .ok message.sourceUuid
  fallback_eq : envelope.get? "source" = .ok fallback
  userId_eq : message.userId = (message.sourceUuid.or message.sourceNumber).or fallback
  userId_truthy : message.userId.truthy = true
  not_self : [message.sourceNumber, message.sourceUuid, fallback].any
    (Json.eqStr settings.signalAccount) = false
  dataMessage_eq : dataMessageOf envelope = .ok dataMessage
  groupInfo_eq : dataMessage.get? "groupInfo" = .ok groupInfo
  groupId_eq : (groupInfo.or (.obj [])).get? "groupId" = .ok message.groupId
  isGroup_eq : message.isGroup = message.groupId.truthy
  allowed : (message.isGroup &&
    !groupAllowed message.groupId settings.signalGroupAllowedUsers) = false
  body_eq : dataMessage.get? "message" = .ok body
  mentions_eq : dataMessage.get? "mentions" = .ok mentions
  text_eq : renderedText repr (body.or (.str [])) (mentions.or (.arr []))
    = .ok (.str message.text)
  mentioned : lacksMention settings message.isGroup (.str message.text) (mentions.or (.arr []))
    = .ok false
  quote_eq : dataMessage.get? "quote" = .ok quote
  attachments_eq : dataMessage.get? "attachments" = .ok rawAttachments
  refs_eq : parseAttachments repr (rawAttachments.or (.arr [])) = .ok message.attachments
  content : ((strip message.text).isEmpty && message.attachments.isEmpty) = false
  timestamp_eq : envelope.get? "timestamp" = .ok timestamp
  fresh : isStale settings clock (timestamp.or (.int 0)) = .ok false
  timestampMs_eq : (timestamp.or (.int 0)).toInt = .ok message.timestampMs
  chatId_eq : chatIdOf repr message.userId message.groupId = .ok message.chatId

/-- A `Parse` with the values that no filter looks at. -/
structure Acceptance (repr : Json → Except PyError PyStr) (raw : Json) (settings : Settings)
    (clock : PyFloat) (message : InboundMessage) extends
    Parse repr raw settings clock message where
  sourceName : Json
  dataMessage_truthy : dataMessage.truthy = true
  replyToId_eq : replyToIdOf repr (quote.or (.obj [])) = .ok message.replyToId
  sourceName_eq : envelope.get? "sourceName" = .ok sourceName
  senderName_eq : message.senderName = sourceName.or (.str [])
  groupName_eq : (groupInfo.or (.obj [])).get? "groupName" = .ok message.groupName
  replyToText_eq : (quote.or (.obj [])).get? "text" = .ok message.replyToText

/-- What an accepted envelope has gone through. -/
theorem acceptance_of_ok {repr : Json → Except PyError PyStr} {raw : Json}
    {settings : Settings} {clock : PyFloat} {message : InboundMessage}
    (h : parseEnvelope repr raw settings clock = .ok (some message)) :
    Nonempty (Acceptance repr raw settings clock message) := by
  unfold parseEnvelope at h
  obtain ⟨envelope, henvelope, h⟩ := bind_ok_iff.mp h
  obtain ⟨metadata, hmetadata, h⟩ := bind_ok_iff.mp h
  obtain ⟨rfl, h⟩ := ite_none_eq_some h
  -- The sender.
  obtain ⟨sourceNumber, hnumber, h⟩ := bind_ok_iff.mp h
  obtain ⟨sourceUuid, huuid, h⟩ := bind_ok_iff.mp h
  obtain ⟨fallback, hfallback, h⟩ := bind_ok_iff.mp h
  obtain ⟨huser, h⟩ := ite_none_eq_some h
  obtain ⟨hself, h⟩ := ite_none_eq_some h
  -- The data message and its group.
  obtain ⟨dataMessage, hdata, h⟩ := bind_ok_iff.mp h
  obtain ⟨htruthy, h⟩ := ite_none_eq_some h
  obtain ⟨groupInfo, hinfo, h⟩ := bind_ok_iff.mp h
  obtain ⟨groupId, hgroup, h⟩ := bind_ok_iff.mp h
  obtain ⟨hallowed, h⟩ := ite_none_eq_some h
  -- The text and its mentions.
  obtain ⟨body, hbody, h⟩ := bind_ok_iff.mp h
  obtain ⟨mentions, hmentions, h⟩ := bind_ok_iff.mp h
  obtain ⟨rendered, htext, h⟩ := bind_ok_iff.mp h
  obtain ⟨lacks, hlacks, h⟩ := bind_ok_iff.mp h
  obtain ⟨rfl, h⟩ := ite_none_eq_some h
  -- The quote, the attachments and the content.
  obtain ⟨quote, hquote, h⟩ := bind_ok_iff.mp h
  obtain ⟨replyToId, hreply, h⟩ := bind_ok_iff.mp h
  obtain ⟨rawAttachments, hraw, h⟩ := bind_ok_iff.mp h
  obtain ⟨attachments, hrefs, h⟩ := bind_ok_iff.mp h
  obtain ⟨text, hstr, h⟩ := bind_ok_iff.mp h
  obtain ⟨hcontent, h⟩ := ite_none_eq_some h
  -- The age.
  obtain ⟨timestamp, hstamp, h⟩ := bind_ok_iff.mp h
  obtain ⟨stale, hstale, h⟩ := bind_ok_iff.mp h
  obtain ⟨rfl, h⟩ := ite_none_eq_some h
  obtain ⟨chatId, hchat, h⟩ := bind_ok_iff.mp h
  obtain ⟨timestampMs, htime, h⟩ := bind_ok_iff.mp h
  obtain ⟨sourceName, hname, h⟩ := bind_ok_iff.mp h
  obtain ⟨groupName, hgroupName, h⟩ := bind_ok_iff.mp h
  obtain ⟨replyToText, hquoted, h⟩ := bind_ok_iff.mp h
  rw [asText_ok hstr] at htext hlacks
  cases h
  exact ⟨{
    envelope, fallback, dataMessage, groupInfo, body, mentions, quote, rawAttachments, timestamp
    sourceName
    envelope_eq := henvelope
    not_metadata := hmetadata
    sourceNumber_eq := hnumber
    sourceUuid_eq := huuid
    fallback_eq := hfallback
    userId_eq := rfl
    userId_truthy := by simpa using huser
    not_self := hself
    dataMessage_eq := hdata
    groupInfo_eq := hinfo
    groupId_eq := hgroup
    isGroup_eq := rfl
    allowed := hallowed
    body_eq := hbody
    mentions_eq := hmentions
    text_eq := htext
    mentioned := hlacks
    quote_eq := hquote
    attachments_eq := hraw
    refs_eq := hrefs
    content := hcontent
    timestamp_eq := hstamp
    fresh := hstale
    timestampMs_eq := htime
    chatId_eq := hchat
    dataMessage_truthy := by simpa using htruthy
    replyToId_eq := hreply
    sourceName_eq := hname
    senderName_eq := rfl
    groupName_eq := hgroupName
    replyToText_eq := hquoted }⟩

/-- The same without the values that no filter looks at. -/
theorem parse_of_ok {repr : Json → Except PyError PyStr} {raw : Json} {settings : Settings}
    {clock : PyFloat} {message : InboundMessage}
    (h : parseEnvelope repr raw settings clock = .ok (some message)) :
    Nonempty (Parse repr raw settings clock message) :=
  (acceptance_of_ok h).map Acceptance.toParse

variable {repr : Json → Except PyError PyStr} {raw : Json} {settings : Settings}
  {clock : PyFloat} {message : InboundMessage}

/-- A filter that does not apply is passed. -/
theorem ite_none_of_false {α : Type} {c : Bool} {x : Except PyError (Option α)} {a : α}
    (hc : c = false) (h : x = .ok (some a)) :
    (if c then pure none else x) = .ok (some a) := by
  rw [hc]
  exact h

/-- The list is complete: what it says is enough for the message to be accepted. -/
theorem Acceptance.parse_eq (p : Acceptance repr raw settings clock message) :
    parseEnvelope repr raw settings clock = .ok (some message) := by
  have hgroup := p.isGroup_eq
  have hallowed := p.allowed
  have hmentioned := p.mentioned
  rw [hgroup] at hallowed hmentioned
  unfold parseEnvelope
  refine bind_ok_iff.mpr ⟨_, p.envelope_eq, ?_⟩
  refine bind_ok_iff.mpr ⟨_, p.not_metadata, ite_none_of_false rfl ?_⟩
  -- The sender.
  refine bind_ok_iff.mpr ⟨_, p.sourceNumber_eq, ?_⟩
  refine bind_ok_iff.mpr ⟨_, p.sourceUuid_eq, ?_⟩
  refine bind_ok_iff.mpr ⟨_, p.fallback_eq, ?_⟩
  rw [← p.userId_eq]
  refine ite_none_of_false (by rw [p.userId_truthy]; rfl) ?_
  refine ite_none_of_false p.not_self ?_
  -- The data message and its group.
  refine bind_ok_iff.mpr ⟨_, p.dataMessage_eq, ?_⟩
  refine ite_none_of_false (by rw [p.dataMessage_truthy]; rfl) ?_
  refine bind_ok_iff.mpr ⟨_, p.groupInfo_eq, ?_⟩
  refine bind_ok_iff.mpr ⟨_, p.groupId_eq, ite_none_of_false hallowed ?_⟩
  -- The text and its mentions.
  refine bind_ok_iff.mpr ⟨_, p.body_eq, ?_⟩
  refine bind_ok_iff.mpr ⟨_, p.mentions_eq, ?_⟩
  refine bind_ok_iff.mpr ⟨_, p.text_eq, ?_⟩
  refine bind_ok_iff.mpr ⟨_, hmentioned, ite_none_of_false rfl ?_⟩
  -- The quote, the attachments and the content.
  refine bind_ok_iff.mpr ⟨_, p.quote_eq, ?_⟩
  refine bind_ok_iff.mpr ⟨_, p.replyToId_eq, ?_⟩
  refine bind_ok_iff.mpr ⟨_, p.attachments_eq, ?_⟩
  refine bind_ok_iff.mpr ⟨_, p.refs_eq, ?_⟩
  refine bind_ok_iff.mpr ⟨_, rfl, ite_none_of_false p.content ?_⟩
  -- The age.
  refine bind_ok_iff.mpr ⟨_, p.timestamp_eq, ?_⟩
  refine bind_ok_iff.mpr ⟨_, p.fresh, ite_none_of_false rfl ?_⟩
  refine bind_ok_iff.mpr ⟨_, p.chatId_eq, ?_⟩
  refine bind_ok_iff.mpr ⟨_, p.timestampMs_eq, ?_⟩
  refine bind_ok_iff.mpr ⟨_, p.sourceName_eq, ?_⟩
  refine bind_ok_iff.mpr ⟨_, p.groupName_eq, ?_⟩
  refine bind_ok_iff.mpr ⟨_, p.replyToText_eq, ?_⟩
  rw [← p.senderName_eq, ← hgroup]
  rfl

/-- A fresh timestamp is small enough to be written in decimal. -/
theorem natAbs_lt_of_fresh {timestamp : Json} {i : ℤ}
    (hfresh : isStale settings clock (timestamp.or (.int 0)) = .ok false)
    (htime : (timestamp.or (.int 0)).toInt = .ok i) : i.natAbs < 10 ^ maxStrDigits := by
  -- Quotients and floats are below the double range.
  have hlt : ∀ {i : ℤ}, (|i| : ℚ) ≤ 1000 * (2 ^ 1025 + 2) → i.natAbs < 10 ^ maxStrDigits := by
    intro i hi
    have hnat : ((i.natAbs : ℕ) : ℚ) ≤ ((1000 * (2 ^ 1025 + 2) : ℕ) : ℚ) := by
      rw [Nat.cast_natAbs]
      refine le_trans (le_of_eq (by push_cast; rfl)) (le_trans hi (le_of_eq ?_))
      rw [Nat.cast_mul, Nat.cast_add, Nat.cast_pow]
      rfl
    have hle : i.natAbs ≤ 1000 * (2 ^ 1025 + 2) := by exact_mod_cast hnat
    have hpow : 1000 * (2 ^ 1025 + 2) < 10 ^ maxStrDigits := by decide +kernel
    exact lt_of_le_of_lt hle hpow
  unfold Json.or at hfresh htime
  split at hfresh
  · next htruthy =>
    rw [if_pos htruthy] at htime
    rw [isStale, if_pos htruthy] at hfresh
    cases timestamp with
    | null => cases htruthy
    | bool b =>
      cases htime
      cases b <;> decide +kernel
    | int n =>
      cases htime
      cases hdiv : intTrueDiv i 1000 with
      | none =>
        simp only [olderThanCutoff, Json.intOrNone, hdiv] at hfresh
        cases hfresh
      | some x => exact hlt (abs_le_of_intTrueDiv (by norm_num) hdiv)
    | float f =>
      cases f with
      | finite q bound =>
        cases htime
        have hq : |q| ≤ 2 ^ 1025 + 2 := by
          have hpow : (2 : ℚ) ^ 1025 = 2 * 2 ^ 1024 := pow_succ' 2 1024
          clear hfresh htruthy
          rw [hpow]
          generalize (2 : ℚ) ^ 1024 = range at bound ⊢
          linarith [abs_nonneg q]
        refine hlt ?_
        calc (|PyFloat.truncate q| : ℚ) ≤ |q| := PyFloat.abs_truncate_le q
          _ ≤ 1 * (2 ^ 1025 + 2) := by rw [one_mul]; exact hq
          _ ≤ 1000 * (2 ^ 1025 + 2) := by gcongr; norm_num
      | inf => cases htime
      | negInf => cases htime
      | nan => cases htime
    | str s => cases hfresh
    | arr items => cases hfresh
    | obj items => cases hfresh
  · next hfalsy =>
    rw [if_neg hfalsy] at htime
    cases htime
    decide +kernel

/-- The timestamp of an accepted envelope can be written in decimal. -/
theorem Parse.timestampMs_lt (p : Parse repr raw settings clock message) :
    message.timestampMs.natAbs < 10 ^ maxStrDigits :=
  natAbs_lt_of_fresh p.fresh p.timestampMs_eq

end SignalGateway.Proofs.Envelope
