import SignalGateway.Proofs.MentionOrigins
import SignalGateway.Proofs.Routing

/-!
# `SignalGateway.Proofs.MentionGate`: what opens the mention gate

The gate of `parse_envelope` searches the text for an at sign and the account. By then the tags
of all mentions are in the text, and the search does not look behind the account. So the name or
the number of another member can open the gate, and so can a longer number that was typed.

`Imitated` describes these cases by the body and the mentions alone. In the body with its tags,
every character of which is either one of a tag or one at a known position of the body
(`Proofs.MentionOrigins`), some stretch spells the at sign and the account

- without being a stretch of the body (`SpelledByTag`): a character of a tag is in it, or
  overlapping mentions have brought characters together that stood apart, or
- as a stretch of the body with a digit behind it (`Prolonged`).

## Main results

- `gate_iff`: the gate is sound for a group, a body and its mentions exactly if the group is not
  admitted, or an entry carries the account, or the sender typed it, or it is not imitated.
- `gate_otherMember`: the number of another member opens the gate.
-/

set_option autoImplicit false

namespace SignalGateway.Proofs.Envelope

open SignalGateway.Envelope Edits
open EngineClient (dict)

/-- The fields that the gate depends on: the group id, the body and the mentions. -/
def gateInput (raw : Json) : Except PyError (Json × Json × Json) := do
  let envelope ← raw.getOr? "envelope" raw
  let dataMessage ← dataMessageOf envelope
  let groupInfo := (← dataMessage.get? "groupInfo").or (.obj [])
  let groupId ← groupInfo.get? "groupId"
  let message := (← dataMessage.get? "message").or (.str [])
  let mentions := (← dataMessage.get? "mentions").or (.arr [])
  return (groupId, message, mentions)

/-- An entry of the mentions carries the account. -/
def BotEntry (account : PyStr) (mentions : Json) : Prop :=
  ∃ items, mentions.iter = .ok items ∧ ∃ item ∈ items,
    item.get? "number" = .ok (.str account) ∨ item.get? "uuid" = .ok (.str account)

/-- The sender typed an at sign and the account, with no further digit behind it. -/
def TypedMention (account : PyStr) (body : Json) : Prop :=
  ∃ front rest, body = .str (front ++ (lit "@" ++ account) ++ rest) ∧
    ∀ c ∈ rest.head?, decimalDigit c.val = none

/-- A stretch of the text spells an at sign and the account. -/
structure Spells (account : PyStr) (text stretch : List Marked) : Prop where
  ne_nil : account ≠ []
  isInfix : stretch <:+: text
  spelled : stretch.map Prod.fst = lit "@" ++ account

/-- The stretch stands in the body, from position `i` on. -/
def TypedAt (stretch : List Marked) (i : Nat) : Prop :=
  stretch.map Prod.snd = (List.range' i stretch.length).map some

/-- The body has a digit at position `i`. -/
def DigitAt (s : PyStr) (i : Nat) : Prop := ∃ c ∈ s[i]?, decimalDigit c.val ≠ none

/-- The account is spelled by a tag, alone or together with what stands next to it. -/
def SpelledByTag (account : PyStr) (es : List Splice) (s : PyStr) : Prop :=
  ∃ stretch, Spells account (marked es s) stretch ∧ ∀ i, ¬ TypedAt stretch i

/-- The sender typed the account with a further digit behind it. -/
def Prolonged (account : PyStr) (es : List Splice) (s : PyStr) : Prop :=
  ∃ stretch i, Spells account (marked es s) stretch ∧ TypedAt stretch i ∧
    DigitAt s (i + stretch.length)

section
variable (repr : Json → Except PyError PyStr)

/-- The tags or a longer number look like a mention of the bot. -/
def Imitated (account : PyStr) (body mentions : Json) : Prop :=
  ∃ s es, body = .str s ∧ splices repr s mentions = .ok es ∧
    (SpelledByTag account es s ∨ Prolonged account es s)

/-- The gateway takes part in the group. -/
def Admitted (settings : Settings) (groupId : Json) : Prop :=
  groupAllowed groupId settings.signalGroupAllowedUsers = true ∧
    ∃ id, groupId.toStr repr = .ok id

end

variable {repr : Json → Except PyError PyStr} {raw : Json} {settings : Settings}
  {clock : PyFloat} {message : InboundMessage}

/-! ### What the gate looks at -/

/-- The fields of an accepted envelope. -/
theorem gateInput_of_parse (p : Parse repr raw settings clock message) :
    gateInput raw = .ok (message.groupId, p.body.or (.str []), p.mentions.or (.arr [])) := by
  simp only [gateInput, p.envelope_eq, p.dataMessage_eq, p.groupInfo_eq, p.groupId_eq, p.body_eq,
    p.mentions_eq, bind, Except.bind]
  rfl

/-- The search finds an entry that carries the account. -/
theorem botEntry_of_anyMentionOf {account : PyStr} {items : List Json}
    (h : anyMentionOf account items = .ok true) :
    ∃ item ∈ items, item.get? "number" = .ok (.str account) ∨
      item.get? "uuid" = .ok (.str account) := by
  induction items with
  | nil => cases h
  | cons item items ih =>
    obtain ⟨number, hnumber, h⟩ := bind_ok_iff.mp h
    split at h
    · next heq => exact ⟨item, List.mem_cons_self, .inl (by rw [hnumber, eq_of_eqStr heq])⟩
    · obtain ⟨uuid, huuid, h⟩ := bind_ok_iff.mp h
      split at h
      · next heq => exact ⟨item, List.mem_cons_self, .inr (by rw [huuid, eq_of_eqStr heq])⟩
      · obtain ⟨found, hfound, heq⟩ := ih h
        exact ⟨found, List.mem_cons_of_mem _ hfound, heq⟩

/-- The gate is open if the text contains the account or an entry carries it. -/
theorem shows_or_botEntry {account text : PyStr} {mentions : Json}
    (h : botMentioned account (.str text) mentions = .ok true) :
    (account ≠ [] ∧ lit "@" ++ account <:+: text) ∨ BotEntry account mentions := by
  have hentry : ∀ {found : Bool},
      (do anyMentionOf account (← mentions.iter)) = Except.ok found → found = true →
        BotEntry account mentions := by
    rintro found hfound rfl
    obtain ⟨items, hitems, hany⟩ := bind_ok_iff.mp hfound
    exact ⟨items, hitems, botEntry_of_anyMentionOf hany⟩
  cases account with
  | nil => exact .inr (hentry h rfl)
  | cons c account =>
    by_cases hshown : lit "@" ++ c :: account <:+: text
    · exact .inl ⟨List.cons_ne_nil _ _, hshown⟩
    · refine .inr (hentry ?_ rfl)
      simpa [botMentioned, Json.contains, hshown, bind, Except.bind] using h

/-- A negation that fails. -/
theorem ok_true_of_not {x : Except PyError Bool} (h : (!·) <$> x = .ok false) :
    x = .ok true := by
  cases x with
  | error e => cases h
  | ok b =>
    cases b with
    | false => cases h
    | true => rfl

/-- A text that shows the account opens the gate. -/
theorem botMentioned_of_shows {account text : PyStr} {mentions : Json} (hne : account ≠ [])
    (h : lit "@" ++ account <:+: text) :
    botMentioned account (.str text) mentions = .ok true := by
  have hcontains : Json.contains (lit "@" ++ account) (.str text) = .ok true :=
    congrArg Except.ok (decide_eq_true h)
  cases account with
  | nil => exact absurd rfl hne
  | cons c account =>
    rw [botMentioned, hcontains]
    rfl

/-- A typed stretch is a stretch of the body. -/
theorem take_drop_of_typedAt {es : List Splice} {s : PyStr} {stretch : List Marked} {i : Nat}
    (hwithin : stretch <:+: marked es s) (htyped : TypedAt stretch i) :
    (s.drop i).take stretch.length = stretch.map Prod.fst := by
  -- Character by character: each stands in the body where its position says.
  have hchar : ∀ k (hk : k < stretch.length), s[i + k]? = some stretch[k].1 := by
    intro k hk
    have hposition : stretch[k].2 = some (i + k) := by
      have hsnd := congrArg (·[k]?) htyped
      simpa [hk] using hsnd
    refine getElem?_of_mem_marked (hwithin.subset (?_ : (stretch[k].1, some (i + k)) ∈ stretch))
    rw [← hposition]
    exact List.getElem_mem hk
  refine List.ext_getElem? fun k => ?_
  by_cases hk : k < stretch.length
  · rw [List.getElem?_take_of_lt hk, List.getElem?_drop, hchar k hk, List.getElem?_map,
      List.getElem?_eq_getElem hk, Option.map_some]
  · rw [List.getElem?_eq_none ((List.length_take_le _ _).trans (not_lt.mp hk)),
      List.getElem?_eq_none (by simpa using hk)]

/-- Text that shows the account shows it as the sender typed it, unless it is imitated. -/
theorem typedMention_of_shows {account text : PyStr} {body mentions : Json}
    (hne : account ≠ []) (htext : renderedText repr body mentions = .ok (.str text))
    (hshown : lit "@" ++ account <:+: text) (himitated : ¬ Imitated repr account body mentions) :
    TypedMention account body := by
  obtain ⟨s, rfl⟩ := body_of_renderedText htext
  rw [renderedText_str] at htext
  cases hes : splices repr s mentions with
  | error e =>
    rw [hes] at htext
    cases htext
  | ok es =>
    rw [hes] at htext
    obtain rfl : (marked es s).map Prod.fst = text := Json.str.inj (Except.ok.inj htext)
    obtain ⟨stretch, hinfix, hspelled⟩ := List.infix_map_iff.mp hshown
    have hspells : Spells account (marked es s) stretch := ⟨hne, hinfix, hspelled.symm⟩
    -- The stretch stands in the body, and no digit follows.
    have htyped : ∃ i, TypedAt stretch i := by
      by_contra hnone
      exact himitated ⟨s, es, rfl, hes, .inl ⟨stretch, hspells, not_exists.mp hnone⟩⟩
    obtain ⟨i, hi⟩ := htyped
    have hdigit : ¬ DigitAt s (i + stretch.length) := fun hdigit =>
      himitated ⟨s, es, rfl, hes, .inr ⟨stretch, i, hspells, hi, hdigit⟩⟩
    refine ⟨s.take i, s.drop (i + stretch.length), congrArg Json.str ?_, ?_⟩
    · rw [hspelled, ← take_drop_of_typedAt hinfix hi, List.append_assoc, ← List.drop_drop,
        List.take_append_drop, List.take_append_drop]
    · intro c hc
      rw [List.head?_drop] at hc
      by_contra hne
      exact hdigit ⟨c, hc, hne⟩

/-- An imitated account is shown in the text. -/
theorem shows_of_imitated {account : PyStr} {body mentions : Json}
    (h : Imitated repr account body mentions) :
    account ≠ [] ∧ ∃ text, renderedText repr body mentions = .ok (.str text) ∧
      lit "@" ++ account <:+: text := by
  obtain ⟨s, es, rfl, hes, himitated⟩ := h
  have hspells : ∃ stretch, Spells account (marked es s) stretch := by
    rcases himitated with ⟨stretch, hspells, -⟩ | ⟨stretch, i, hspells, -⟩
    · exact ⟨stretch, hspells⟩
    · exact ⟨stretch, hspells⟩
  obtain ⟨stretch, hspells⟩ := hspells
  refine ⟨hspells.ne_nil, (marked es s).map Prod.fst, ?_, ?_⟩
  · rw [renderedText_str, hes]
    rfl
  · rw [← hspells.spelled]
    exact hspells.isInfix.map Prod.fst

/-! ### When the gate is sound -/

/-- A text with a character that is no space is not blank. -/
theorem strip_isEmpty_of_mem {text : PyStr} {c : CodePoint} (hc : c ∈ text)
    (hspace : isSpace c = false) : (strip text).isEmpty = false := by
  cases hstrip : strip text with
  | cons c text => rfl
  | nil =>
    -- All of the text behind its spaces would be space, and then all of the text.
    have hback : ∀ x ∈ lstrip text, isSpace x = true := List.rdropWhile_eq_nil_iff.mp hstrip
    have hnil : lstrip text = [] := by
      cases hfront : lstrip text with
      | nil => rfl
      | cons x rest =>
        have hx : isSpace x = true := hback x (hfront ▸ List.mem_cons_self)
        have hhead : isSpace x = false := by
          have hnot := List.head?_dropWhile_not isSpace text
          rw [show text.dropWhile isSpace = x :: rest from hfront] at hnot
          simpa using hnot
        exact absurd (hx.symm.trans hhead) (by decide)
    exact absurd (List.dropWhile_eq_nil_iff.mp hnil c hc) (by simp [hspace])

/-- What `get` finds in a dictionary literal. -/
theorem get?_dict (items : List (String × Json)) (key : String) :
    (Json.obj (dict items)).get? key = .ok ((items.lookup key).getD .null) := by
  rw [Json.get?, Json.lookup, Routing.lookup_dict]

/-- The keys of a dictionary literal. -/
theorem contains_dict (items : List (String × Json)) (key : String) :
    (Json.obj (dict items)).contains (lit key) = .ok (items.lookup key).isSome := by
  rw [Json.contains, Routing.lookup_dict]

/-- The data message of a stranger in a group. -/
def strangerData (groupId body mentions : Json) : Json :=
  .obj (dict [("message", body), ("mentions", mentions),
    ("groupInfo", .obj (dict [("groupId", groupId)]))])

/-- A group message of a stranger. -/
def strangerEnvelope (account : PyStr) (groupId body mentions : Json) : Json :=
  .obj (dict [("sourceUuid", .str (account ++ lit "x")),
    ("dataMessage", strangerData groupId body mentions)])

/-- The envelope of a stranger is not wrapped. -/
theorem getOr?_stranger (account : PyStr) (groupId body mentions : Json) :
    (strangerEnvelope account groupId body mentions).getOr? "envelope"
      (strangerEnvelope account groupId body mentions)
        = .ok (strangerEnvelope account groupId body mentions) := by
  simp [strangerEnvelope, Json.getOr?, Routing.lookup_dict, List.lookup_cons]

/-- The data message of a stranger is not edited. -/
theorem dataMessageOf_stranger (account : PyStr) (groupId body mentions : Json) :
    dataMessageOf (strangerEnvelope account groupId body mentions)
      = .ok (strangerData groupId body mentions) := by
  have hdirect : (strangerEnvelope account groupId body mentions).get? "dataMessage"
      = .ok (strangerData groupId body mentions) := by
    simp [strangerEnvelope, get?_dict, List.lookup_cons]
  rw [dataMessageOf, hdirect]
  rfl

/-- A body and mentions that were read have their defaults. -/
theorem defaults_of_gateInput {groupId body mentions : Json}
    (hinput : gateInput raw = .ok (groupId, body, mentions)) :
    body.or (.str []) = body ∧ mentions.or (.arr []) = mentions := by
  have hor : ∀ {x y z : Json}, x.or y = z → z.or y = z := by
    rintro x y z rfl
    unfold Json.or
    split
    · rfl
    · split <;> rfl
  rw [gateInput] at hinput
  obtain ⟨envelope, -, hinput⟩ := bind_ok_iff.mp hinput
  obtain ⟨dataMessage, -, hinput⟩ := bind_ok_iff.mp hinput
  obtain ⟨groupInfo, -, hinput⟩ := bind_ok_iff.mp hinput
  obtain ⟨id, -, hinput⟩ := bind_ok_iff.mp hinput
  obtain ⟨message, -, hinput⟩ := bind_ok_iff.mp hinput
  obtain ⟨items, -, hinput⟩ := bind_ok_iff.mp hinput
  obtain ⟨-, hfields⟩ := Prod.mk.inj (Except.ok.inj hinput)
  obtain ⟨hbody, hmentions⟩ := Prod.mk.inj hfields
  exact ⟨hor hbody, hor hmentions⟩

/-- Fields that were read once are read again. -/
theorem gateInput_stranger {groupId body mentions : Json} (account : PyStr)
    (hinput : gateInput raw = .ok (groupId, body, mentions)) :
    gateInput (strangerEnvelope account groupId body mentions)
      = .ok (groupId, body, mentions) := by
  obtain ⟨hbody, hmentions⟩ := defaults_of_gateInput hinput
  have hinfo : (Json.obj (dict [("groupId", groupId)])).or (.obj [])
      = .obj (dict [("groupId", groupId)]) := rfl
  simp only [gateInput, getOr?_stranger, dataMessageOf_stranger, strangerData, get?_dict, bind,
    Except.bind]
  simp [List.lookup_cons, hbody, hmentions, hinfo, get?_dict]
  rfl

/-- No filter but the gate drops the message of a stranger. -/
theorem stranger_accepted {groupId body mentions : Json} {text : PyStr}
    (hinput : gateInput raw = .ok (groupId, body, mentions)) (hgroup : groupId.truthy = true)
    (hadmitted : Admitted repr settings groupId)
    (htext : renderedText repr body mentions = .ok (.str text))
    (hne : settings.signalAccount ≠ []) (hshown : lit "@" ++ settings.signalAccount <:+: text) :
    ∃ message, parseEnvelope repr
      (strangerEnvelope settings.signalAccount groupId body mentions) settings clock
        = .ok (some message) := by
  obtain ⟨hbody, hmentions⟩ := defaults_of_gateInput hinput
  obtain ⟨hallowed, id, hid⟩ := hadmitted
  have hinfo : (Json.obj (dict [("groupId", groupId)])).or (.obj [])
      = .obj (dict [("groupId", groupId)]) := rfl
  let message : InboundMessage :=
    { userId := .str (settings.signalAccount ++ lit "x")
      chatId := .str (groupPrefix ++ id)
      text, timestampMs := 0, isGroup := true
      sourceUuid := .str (settings.signalAccount ++ lit "x")
      groupId }
  have hget : ∀ key, (strangerEnvelope settings.signalAccount groupId body mentions).get? key
      = .ok (([("sourceUuid", message.userId),
        ("dataMessage", strangerData groupId body mentions)].lookup key).getD .null) :=
    fun key => get?_dict _ key
  have hdata : ∀ key, (strangerData groupId body mentions).get? key
      = .ok (([("message", body), ("mentions", mentions),
        ("groupInfo", .obj (dict [("groupId", groupId)]))].lookup key).getD .null) :=
    fun key => get?_dict _ key
  have hsender : message.userId.truthy = true := by
    simp [message, Json.truthy, lit]
  -- The text is not blank, and it shows the account.
  have hcontent : (strip text).isEmpty = false :=
    strip_isEmpty_of_mem (hshown.subset (List.mem_append_left _ List.mem_cons_self)) (by decide)
  have hopen : lacksMention settings message.isGroup (.str text) (mentions.or (.arr []))
      = .ok false := by
    rw [lacksMention]
    split
    · rw [botMentioned_of_shows hne hshown]
      rfl
    · rfl
  refine ⟨message, Acceptance.parse_eq
    { envelope := strangerEnvelope settings.signalAccount groupId body mentions
      fallback := .null
      dataMessage := strangerData groupId body mentions
      groupInfo := .obj (dict [("groupId", groupId)])
      body, mentions
      quote := .null
      rawAttachments := .null
      timestamp := .null
      sourceName := .null
      envelope_eq := getOr?_stranger ..
      not_metadata := by
        simp [isMetadata, strangerEnvelope, contains_dict, get?_dict, List.lookup_cons, bind,
          Except.bind]
        rfl
      sourceNumber_eq := hget _
      sourceUuid_eq := hget _
      fallback_eq := hget _
      userId_eq := by rw [Json.or, Json.or, if_pos hsender, if_pos hsender]
      userId_truthy := hsender
      not_self := by simp [message, Json.eqStr, lit]
      dataMessage_eq := dataMessageOf_stranger ..
      groupInfo_eq := hdata _
      groupId_eq := by rw [hinfo, get?_dict]; rfl
      isGroup_eq := hgroup.symm
      allowed := by rw [hallowed]; rfl
      body_eq := hdata _
      mentions_eq := hdata _
      text_eq := by rw [hbody, hmentions, htext]
      mentioned := hopen
      quote_eq := hdata _
      attachments_eq := hdata _
      refs_eq := rfl
      content := by rw [hcontent]; rfl
      timestamp_eq := hget _
      fresh := rfl
      timestampMs_eq := rfl
      chatId_eq := by rw [chatIdOf, if_pos hgroup, hid]; rfl
      dataMessage_truthy := rfl
      replyToId_eq := rfl
      sourceName_eq := hget _
      senderName_eq := rfl
      groupName_eq := by rw [hinfo, get?_dict]; rfl
      replyToText_eq := rfl }⟩

/-- The gate is sound for a group, a body and its mentions exactly if the group is not admitted,
or the bot is mentioned, or nothing looks like a mention of the bot. -/
theorem gate_iff {groupId body mentions : Json} (hon : settings.signalRequireMention = true)
    (hinput : ∃ raw, gateInput raw = .ok (groupId, body, mentions))
    (hgroup : groupId.truthy = true) :
    (∀ raw clock message, gateInput raw = .ok (groupId, body, mentions) →
        parseEnvelope repr raw settings clock = .ok (some message) →
          BotEntry settings.signalAccount mentions ∨ TypedMention settings.signalAccount body) ↔
      (Admitted repr settings groupId →
        BotEntry settings.signalAccount mentions ∨ TypedMention settings.signalAccount body ∨
          ¬ Imitated repr settings.signalAccount body mentions) := by
  constructor
  · intro hsound hadmitted
    by_cases himitated : Imitated repr settings.signalAccount body mentions
    · -- The message of a stranger passes the gate.
      obtain ⟨hne, text, htext, hshown⟩ := shows_of_imitated himitated
      obtain ⟨raw, hraw⟩ := hinput
      obtain ⟨message, hmessage⟩ : ∃ message, parseEnvelope repr
          (strangerEnvelope settings.signalAccount groupId body mentions) settings (.ofRat 0)
            = .ok (some message) := stranger_accepted hraw hgroup hadmitted htext hne hshown
      rcases hsound _ _ message (gateInput_stranger _ hraw) hmessage with hentry | htyped
      · exact .inl hentry
      · exact .inr (.inl htyped)
    · exact .inr (.inr himitated)
  · intro hcond raw clock message hraw hparse
    -- The message has passed all filters, the gate among them.
    obtain ⟨p⟩ := parse_of_ok hparse
    have hfields := (gateInput_of_parse p).symm.trans hraw
    obtain ⟨hid, hfields⟩ := Prod.mk.inj (Except.ok.inj hfields)
    obtain ⟨hbody, hmentions⟩ := Prod.mk.inj hfields
    have htext := p.text_eq
    rw [hbody, hmentions] at htext
    have hisGroup : message.isGroup = true := by rw [p.isGroup_eq, hid, hgroup]
    have hadmitted : Admitted repr settings groupId := by
      have hallowed := p.allowed
      have hchat := p.chatId_eq
      rw [hisGroup, hid] at hallowed
      rw [chatIdOf, hid, if_pos hgroup] at hchat
      refine ⟨by simpa using hallowed, ?_⟩
      cases hstr : groupId.toStr repr with
      | error e =>
        rw [hstr] at hchat
        cases hchat
      | ok id => exact ⟨id, rfl⟩
    have hopen : botMentioned settings.signalAccount (.str message.text) mentions = .ok true := by
      have hlacks := p.mentioned
      rw [lacksMention, hisGroup, hon, hmentions] at hlacks
      exact ok_true_of_not hlacks
    -- The gate opens for a text that shows the account, or for an entry of the bot.
    rcases shows_or_botEntry hopen with ⟨hne, hshown⟩ | hentry
    · rcases hcond hadmitted with hentry | htyped | himitated
      · exact .inl hentry
      · exact .inr htyped
      · exact .inr (typedMention_of_shows hne htext hshown himitated)
    · exact .inl hentry

/-! ### Other members -/

/-- The gate in the group. -/
def gateSettings : Settings := { Routing.groupSettings with signalRequireMention := true }

/-- A member whose number starts with the number of the bot. -/
def otherMember : Mention := ⟨4, 1, none, some (lit "+155500011112"), none⟩

/-- A question to that member. -/
def otherMemberEnvelope : Json :=
  .obj (dict
    [("envelope", .obj (dict
      [("sourceUuid", .str (lit "8c1f")), ("timestamp", .int 1700000000000),
        ("dataMessage", .obj (dict
          [("message", .str (lit "ask \uFFFC")), ("mentions", .arr [otherMember.toJson]),
            ("groupInfo", .obj (dict [("groupId", .str (lit "Z3Jw"))]))]))]))])

/-- The question is accepted. -/
theorem otherMemberEnvelope_accepted :
    (parseEnvelope (fun _ => .ok []) otherMemberEnvelope gateSettings
      (.ofRat 1700000000)).toOption.join.isSome = true := by
  decide +kernel

/-- The bot is not mentioned. -/
theorem not_botEntry_otherMember :
    ¬ BotEntry gateSettings.signalAccount (.arr [otherMember.toJson]) := by
  rintro ⟨items, hitems, item, hitem, hentry⟩
  cases hitems
  obtain rfl := List.mem_singleton.mp hitem
  rcases hentry with hnumber | huuid
  · have hstr := Json.str.inj (Except.ok.inj hnumber)
    exact absurd hstr (by decide +kernel)
  · cases huuid

/-- The account was not typed. -/
theorem not_typedMention_otherMember :
    ¬ TypedMention gateSettings.signalAccount (.str (lit "ask \uFFFC")) := by
  rintro ⟨front, rest, hbody, -⟩
  have hat : lit "@" <:+: (lit "ask \uFFFC" : PyStr) := by
    rw [Json.str.inj hbody]
    exact ⟨front, gateSettings.signalAccount ++ rest, by simp⟩
  exact absurd hat (by decide +kernel)

/-- The fields of the question. -/
theorem gateInput_otherMember :
    gateInput otherMemberEnvelope = .ok (.str (lit "Z3Jw"), .str (lit "ask \uFFFC"),
      .arr [otherMember.toJson]) := by
  rfl

/-- The law for the question. -/
theorem gate_iff_otherMember :
    let account := gateSettings.signalAccount
    let groupId : Json := .str (lit "Z3Jw")
    let body : Json := .str (lit "ask \uFFFC")
    let mentions : Json := .arr [otherMember.toJson]
    let repr := fun _ => .ok []
    (∀ raw clock message, gateInput raw = .ok (groupId, body, mentions) →
        parseEnvelope repr raw gateSettings clock = .ok (some message) →
          BotEntry account mentions ∨ TypedMention account body) ↔
      (Admitted repr gateSettings groupId →
        BotEntry account mentions ∨ TypedMention account body ∨
          ¬ Imitated repr account body mentions) :=
  gate_iff rfl ⟨otherMemberEnvelope, gateInput_otherMember⟩ rfl

/-- The number of the other member opens the gate. -/
theorem gate_otherMember :
    ∃ message, parseEnvelope (fun _ => .ok []) otherMemberEnvelope gateSettings
        (.ofRat 1700000000) = .ok (some message) ∧
      message.isGroup = true ∧ gateSettings.signalRequireMention = true ∧
      gateInput otherMemberEnvelope = .ok (.str (lit "Z3Jw"), .str (lit "ask \uFFFC"),
        .arr [otherMember.toJson]) ∧
      ¬ (BotEntry gateSettings.signalAccount (.arr [otherMember.toJson]) ∨
        TypedMention gateSettings.signalAccount (.str (lit "ask \uFFFC"))) :=
  ⟨_, eq_accepted otherMemberEnvelope_accepted, by decide +kernel, rfl, gateInput_otherMember,
    not_or.mpr ⟨not_botEntry_otherMember, not_typedMention_otherMember⟩⟩

end SignalGateway.Proofs.Envelope
