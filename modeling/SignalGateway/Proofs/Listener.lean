import SignalGateway.Listener
import SignalGateway.Proofs.Routing
import SignalGateway.Proofs.Str

/-!
# `SignalGateway.Proofs.Listener`: one bad event does not cost another

`accepted` is the message a line carries, if it has one. `streamLines_isolated` says that the
listener hands exactly these messages to its handler, in order, and stays on the stream,
exactly if no line is in the way (`InTheWay`).

`InTheWay` has two cases, each a slip of the source:

* `Undecodable`: `json.loads` raises something that is no `JSONDecodeError`, for example on an
  integer with more than 4300 digits. The exception leaves the loop over the lines.
* `Unrememberable`: `remember_identifiers` raises, outside of the `try` around the handler.

`runs_handleLine` says what one line does, and `runs_streamLines` is the induction over the lines.
A handler that raises is in nobody's way, and neither is a line that is no JSON.
-/

set_option autoImplicit false

namespace SignalGateway.Proofs.Listener

open SignalGateway.Listener SignalGateway.Envelope SignalGateway.SignalClient Prog

/-- The message of a call of the handler. -/
def handledOf : (op : Op) → op.Answer → Option InboundMessage
  | .handler message, _ => some message
  | .cacheIdentifiers _ _, _ => none

/-- The messages handed to the handler, in order. -/
def handled (t : List calls.Event) : List InboundMessage :=
  t.filterMap fun ev => handledOf ev.1 ev.2

/-- The messages handled in two stretches. -/
@[simp] theorem handled_append (t₁ t₂ : List calls.Event) :
    handled (t₁ ++ t₂) = handled t₁ ++ handled t₂ := List.filterMap_append

section
variable (loads : PyStr → Except PyError Json) (repr : Json → Except PyError PyStr)
  (settings : Settings) (hasClient : Bool)

/-- The message of a `data:` line whose value `parse_envelope` accepts. -/
def accepted (line : Line) : Option InboundMessage := do
  let data ← eventData line.text
  let raw ← (loads data).toOption
  (parseEnvelope repr raw settings line.clock).toOption.join

/-- `json.loads` raises something other than `JSONDecodeError` on the line. -/
def Undecodable (line : Line) : Prop :=
  ∃ data e, eventData line.text = some data ∧ loads data = .error e ∧ e ≠ .jsonDecodeError

/-- Identifiers that `remember_identifiers` does not take: both are there, and the id is no
string, or it is a service id and the number has no hash. -/
def BadIdentifiers (number serviceId : Json) : Prop :=
  number.truthy = true ∧ serviceId.truthy = true ∧ ((∀ s, serviceId ≠ .str s) ∨
    isSignalServiceId serviceId = .ok true ∧ number.hashable = false)

/-- The message on the line is accepted, with identifiers that raise. -/
def Unrememberable (line : Line) : Prop :=
  hasClient = true ∧ ∃ message, accepted loads repr settings line = some message ∧
    BadIdentifiers message.sourceNumber message.sourceUuid

/-- A line that takes the listener off the stream, or whose message is lost. -/
def InTheWay (line : Line) : Prop :=
  Undecodable loads line ∨ Unrememberable loads repr settings hasClient line

end

variable {loads : PyStr → Except PyError Json} {repr : Json → Except PyError PyStr}
  {settings : Settings} {hasClient : Bool}

/-- Only a string is looked at. -/
theorem isSignalServiceId_cases {serviceId : Json} (h : serviceId.truthy = true) :
    (∃ s ok, serviceId = .str s ∧ isSignalServiceId serviceId = .ok ok) ∨
      (∀ s, serviceId ≠ .str s) ∧ isSignalServiceId serviceId = .error .attributeError := by
  cases serviceId with
  | str s => exact .inl ⟨s, _, rfl, rfl⟩
  | _ =>
    refine .inr ⟨fun s hs => (by cases hs), ?_⟩
    rw [isSignalServiceId, if_pos h]
    intro s hs
    cases hs

/-- The identifiers that raise. -/
theorem rememberIdentifiers_raises_iff {number serviceId : Json} :
    (∃ e, rememberIdentifiers number serviceId = .error e) ↔ BadIdentifiers number serviceId := by
  cases hnumber : number.truthy with
  | false => simp [rememberIdentifiers, BadIdentifiers, hnumber, Pure.pure, Except.pure]
  | true =>
    cases hid : serviceId.truthy with
    | false => simp [rememberIdentifiers, BadIdentifiers, hnumber, hid, Pure.pure, Except.pure]
    | true =>
      have hrun : rememberIdentifiers number serviceId
          = (isSignalServiceId serviceId).bind fun ok => if !ok then .ok none
            else if !number.hashable then .error .typeError
            else .ok (some (number, serviceId)) := by
        simp only [rememberIdentifiers, hnumber, hid]
        rfl
      rw [hrun, BadIdentifiers, hnumber, hid]
      rcases isSignalServiceId_cases hid with ⟨s, ok, rfl, hok⟩ | ⟨hne, herror⟩
      · rw [hok]
        cases ok <;> cases hhash : number.hashable <;> simp [Except.bind]
      · rw [herror]
        simp [Except.bind, hne]

/-- The caches are written without an error, or the identifiers raise. -/
theorem runs_remember {message : InboundMessage} {t : List calls.Event} {r : Except PyError Unit}
    (h : Runs (remember hasClient message) t r) :
    handled t = [] ∧ ((∃ e, r = .error e) ↔ hasClient = true ∧
      BadIdentifiers message.sourceNumber message.sourceUuid) := by
  rw [← rememberIdentifiers_raises_iff]
  unfold remember at h
  split at h
  · next hclient =>
    cases hpair : rememberIdentifiers message.sourceNumber message.sourceUuid with
    | error e =>
      rw [hpair] at h
      obtain ⟨rfl, rfl⟩ := runs_raise.mp h
      simp [hclient, handled]
    | ok pair =>
      rw [hpair] at h
      -- Only a pair is handed to the caches.
      cases pair with
      | none =>
        obtain ⟨rfl, rfl⟩ := runs_pure.mp h
        simp [handled]
      | some pair =>
        obtain ⟨x, t', rfl, hx⟩ := runs_call.mp h
        obtain ⟨rfl, rfl⟩ := runs_pure.mp hx
        simp [handled, handledOf]
  · next hclient =>
    cases h
    simp [handled, hclient]

/-- The identifiers of a message raise in `remember_identifiers`. -/
def Raises (hasClient : Bool) (message : InboundMessage) : Prop :=
  hasClient = true ∧ BadIdentifiers message.sourceNumber message.sourceUuid

/-- A value is handed on if it is accepted and its identifiers do not raise. -/
theorem runs_dispatch {raw : Json} {clock : PyFloat} {t : List calls.Event}
    {r : Except PyError Unit} (h : Runs (dispatch repr settings hasClient raw clock) t r) :
    (∀ message ∈ (parseEnvelope repr raw settings clock).toOption.join,
        Raises hasClient message → handled t = []) ∧
      ((∀ message ∈ (parseEnvelope repr raw settings clock).toOption.join,
          ¬ Raises hasClient message) →
        handled t = (parseEnvelope repr raw settings clock).toOption.join.toList) := by
  unfold dispatch at h
  cases hparse : parseEnvelope repr raw settings clock with
  | error e =>
    rw [hparse] at h
    obtain ⟨rfl, rfl⟩ := runs_raise.mp h
    exact ⟨fun _ _ _ => rfl, fun _ => rfl⟩
  | ok message =>
    rw [hparse] at h
    cases message with
    | none =>
      obtain ⟨rfl, rfl⟩ := runs_pure.mp h
      exact ⟨fun _ _ _ => rfl, fun _ => rfl⟩
    | some message =>
      -- The identifiers are remembered first, and an error there loses the message.
      have hmessage : Runs (do
          remember hasClient message
          .call (.handler message) .ofExcept : Action Unit) t r := h
      rcases runs_bind.mp hmessage with ⟨u, t₁, t₂, rfl, hremember, hcall⟩ | ⟨e, rfl, hremember⟩
      · obtain ⟨hnone, hraises⟩ := runs_remember hremember
        have hok : ¬ Raises hasClient message := by
          intro hr
          obtain ⟨e, he⟩ := hraises.mpr hr
          cases he
        obtain ⟨x, rfl, rfl⟩ := runs_call_ofExcept.mp hcall
        refine ⟨fun m hm hr => ?_, fun _ => ?_⟩
        · cases hm
          exact absurd hr hok
        · rw [handled_append, hnone]
          rfl
      · obtain ⟨hnone, hraises⟩ := runs_remember hremember
        refine ⟨fun _ _ _ => hnone, fun hok => ?_⟩
        exact absurd (hraises.mp ⟨e, rfl⟩) (hok message rfl)

/-- A line that carries data is undecodable exactly if the data is. -/
theorem undecodable_iff {line : Line} {data : PyStr} (hdata : eventData line.text = some data) :
    Undecodable loads line ↔ ∃ e, loads data = .error e ∧ e ≠ .jsonDecodeError := by
  constructor
  · rintro ⟨data', e, hsome, herror, hne⟩
    obtain rfl := Option.some.inj (hdata.symm.trans hsome)
    exact ⟨e, herror, hne⟩
  · rintro ⟨e, herror, hne⟩
    exact ⟨data, e, hdata, herror, hne⟩

/-- The message of a line that carries data. -/
theorem accepted_of_data {line : Line} {data : PyStr} (hdata : eventData line.text = some data) :
    accepted loads repr settings line = (loads data).toOption.bind fun raw =>
      (parseEnvelope repr raw settings line.clock).toOption.join := by
  rw [accepted, hdata]
  rfl

/-- A line without a message has no identifiers that raise. -/
theorem not_unrememberable_of_none {line : Line}
    (h : accepted loads repr settings line = none) :
    ¬ Unrememberable loads repr settings hasClient line := by
  rintro ⟨-, message, hsome, -⟩
  rw [h] at hsome
  cases hsome

/-- What the listener does with one line. -/
theorem runs_handleLine {line : Line} {t : List calls.Event} {r : Except PyError Unit}
    (h : Runs (handleLine loads repr settings hasClient line) t r) :
    (Undecodable loads line ∧ (∃ e, r = .error e) ∧ handled t = []) ∨
      (¬ Undecodable loads line ∧ r = .ok () ∧
        ((Unrememberable loads repr settings hasClient line ∧ handled t = []) ∨
          (¬ Unrememberable loads repr settings hasClient line ∧
            handled t = (accepted loads repr settings line).toList))) := by
  unfold handleLine at h
  cases hdata : eventData line.text with
  | none =>
    -- Not a data line.
    rw [hdata] at h
    cases h
    have hnone : accepted loads repr settings line = none := by rw [accepted, hdata]; rfl
    refine .inr ⟨?_, rfl, .inr ⟨not_unrememberable_of_none hnone, by rw [hnone]; rfl⟩⟩
    rintro ⟨data, e, hsome, -⟩
    rw [hdata] at hsome
    cases hsome
  | some data =>
    rw [hdata] at h
    rw [undecodable_iff hdata]
    cases hloads : loads data with
    | error e =>
      simp only [hloads] at h
      have hnone : accepted loads repr settings line = none := by
        rw [accepted_of_data hdata, hloads]
        rfl
      -- Only the decode error is caught on the line.
      by_cases he : e = .jsonDecodeError
      · subst he
        cases h
        refine .inr ⟨?_, rfl, .inr ⟨not_unrememberable_of_none hnone, by rw [hnone]; rfl⟩⟩
        rintro ⟨e, herror, hne⟩
        exact hne (Except.error.inj herror).symm
      · refine .inl ⟨⟨e, rfl, he⟩, ?_⟩
        have hraise : Runs (.raise e : Action Unit) t r := by
          cases e <;> first | exact h | exact absurd rfl he
        obtain ⟨rfl, rfl⟩ := runs_raise.mp hraise
        exact ⟨⟨e, rfl⟩, rfl⟩
    | ok raw =>
      simp only [hloads] at h
      have haccepted : accepted loads repr settings line
          = (parseEnvelope repr raw settings line.clock).toOption.join := by
        rw [accepted_of_data hdata, hloads]
        rfl
      -- What the dispatch raises is swallowed, so only its calls matter.
      have hrun : r = .ok () ∧ ∃ r', Runs (dispatch repr settings hasClient raw line.clock) t r' := by
        rcases runs_tryCatch.mp h with ⟨u, rfl, hrun⟩ | ⟨e, t₁, t₂, rfl, hrun, hpure⟩
        · exact ⟨rfl, _, hrun⟩
        · obtain ⟨rfl, rfl⟩ := runs_pure.mp hpure
          rw [List.append_nil]
          exact ⟨rfl, _, hrun⟩
      obtain ⟨rfl, r', hrun⟩ := hrun
      obtain ⟨hlost, hkept⟩ := runs_dispatch hrun
      rw [← haccepted] at hlost hkept
      refine .inr ⟨fun ⟨e, herror, _⟩ => (by cases herror), rfl, ?_⟩
      by_cases hraises : Unrememberable loads repr settings hasClient line
      · obtain ⟨hclient, message, hsome, hbad⟩ := id hraises
        exact .inl ⟨hraises, hlost message hsome ⟨hclient, hbad⟩⟩
      · refine .inr ⟨hraises, hkept fun message hsome hr => ?_⟩
        exact hraises ⟨hr.1, message, hsome, hr.2⟩

/-- The handler gets at most the accepted messages. It gets all of them, on a stream that is
read to its end, exactly if no line is in the way. -/
theorem runs_streamLines {lines : List Line} : ∀ {t : List calls.Event} {r : Except PyError Unit},
    Runs (streamLines loads repr settings hasClient lines) t r →
      (handled t).length ≤ (lines.filterMap (accepted loads repr settings)).length ∧
        ((r = .ok () ∧ handled t = lines.filterMap (accepted loads repr settings)) ↔
          ∀ line ∈ lines, ¬ InTheWay loads repr settings hasClient line) := by
  induction lines with
  | nil =>
    intro t r h
    cases h
    exact ⟨le_rfl, by simp [handled]⟩
  | cons line lines ih =>
    intro t r h
    have hcons : (line :: lines).filterMap (accepted loads repr settings)
        = (accepted loads repr settings line).toList
          ++ lines.filterMap (accepted loads repr settings) := by
      cases haccepted : accepted loads repr settings line <;> simp [haccepted]
    rw [hcons, List.forall_mem_cons]
    rcases runs_bind.mp h with ⟨u, t₁, t₂, rfl, hline, hrest⟩ | ⟨e, rfl, hline⟩
    · obtain ⟨hlen, hiff⟩ := ih hrest
      rcases runs_handleLine hline with ⟨-, ⟨e, he⟩, -⟩ | ⟨hdecodes, -, hhandled⟩
      · cases he
      rw [handled_append]
      rcases hhandled with ⟨hlost, hnil⟩ | ⟨hkept, heq⟩
      · -- The message of this line is missing.
        obtain ⟨-, message, hsome, -⟩ := id hlost
        rw [hnil, hsome]
        refine ⟨by simpa using hlen.trans (Nat.le_succ _), ?_⟩
        constructor
        · rintro ⟨-, hall⟩
          have := congrArg List.length hall
          simp only [List.nil_append, Option.toList_some, List.singleton_append,
            List.length_cons] at this
          omega
        · rintro ⟨hclear, -⟩
          exact absurd (.inr hlost) hclear
      · rw [heq, List.append_cancel_left_eq, hiff, List.length_append, List.length_append]
        refine ⟨Nat.add_le_add_left hlen _, ?_⟩
        have hclear : ¬ InTheWay loads repr settings hasClient line := by
          rintro (hundecodable | hlost)
          · exact hdecodes hundecodable
          · exact hkept hlost
        exact ⟨fun hrest => ⟨hclear, hrest⟩, fun hall => hall.2⟩
    · rcases runs_handleLine hline with ⟨hundecodable, -, hnil⟩ | ⟨-, he, -⟩
      · rw [hnil]
        refine ⟨Nat.zero_le _, ?_⟩
        constructor
        · rintro ⟨hok, -⟩
          cases hok
        · rintro ⟨hclear, -⟩
          exact absurd (.inl hundecodable) hclear
      · cases he

/-- The listener stays on the stream and hands every accepted message to its handler, once and
in order, exactly if no line is in the way. -/
theorem streamLines_isolated (loads : PyStr → Except PyError Json)
    (repr : Json → Except PyError PyStr) (settings : Settings) (hasClient : Bool)
    (lines : List Line) {t : List calls.Event} {r : Except PyError Unit}
    (h : Runs (streamLines loads repr settings hasClient lines) t r) :
    (r = .ok () ∧ handled t = lines.filterMap (accepted loads repr settings)) ↔
      ∀ line ∈ lines, ¬ InTheWay loads repr settings hasClient line :=
  (runs_streamLines h).2

/-- The JSON text of an envelope in a group. -/
def groupText : PyStr :=
  lit ("\x7b\"envelope\": \x7b\"sourceUuid\": \"8c1f\", \"timestamp\": 1700000000000, "
    ++ "\"dataMessage\": \x7b\"message\": \"hello\", "
    ++ "\"groupInfo\": \x7b\"groupId\": \"Z3Jw\"\x7d\x7d\x7d\x7d")

/-- `json.loads` on this text, and on integers above the limit on digits. -/
def sampleLoads (s : PyStr) : Except PyError Json :=
  if s = groupText then .ok Routing.groupEnvelope
  else if maxStrDigits < s.length && s.all isAsciiDigit then .error .valueError
  else .error .jsonDecodeError

/-- The event of the envelope. -/
def groupLine : Line := ⟨lit "data: " ++ groupText, .ofRat 1700000000⟩

/-- An event with an integer of `n` digits. -/
def integerLine (n : Nat) : Line :=
  ⟨lit "data: " ++ List.replicate n (digitChr 7), .ofRat 1700000000⟩

/-- A `data:` line carries its data. -/
theorem eventData_data {data : PyStr} (hne : data ≠ []) (hhead : ∀ c ∈ data.head?, isSpace c = false)
    (hlast : ∀ c ∈ data.getLast?, isSpace c = false) :
    eventData (lit "data: " ++ data) = some data := by
  have hline : strip (lit "data: " ++ data) = lit "data: " ++ data := by
    refine strip_eq_self (fun c hc => ?_) fun c hc => ?_
    · cases hc
      rfl
    · rw [List.getLast?_append_of_ne_nil _ hne] at hc
      exact hlast c hc
  have hdata : strip ((lit "data: " ++ data).drop (lit "data:" : PyStr).length) = data := by
    have hdrop : lstrip ((lit "data: " ++ data).drop (lit "data:" : PyStr).length) = lstrip data := rfl
    rw [strip, hdrop, ← strip]
    exact strip_eq_self hhead hlast
  rw [eventData, hline]
  have hnonempty : data.isEmpty = false := by
    rw [List.isEmpty_eq_false_iff]
    exact hne
  simp only [hdata, hnonempty]
  rfl

/-- The data of the group line. -/
theorem eventData_groupLine : eventData groupLine.text = some groupText := by decide +kernel

/-- The text of the envelope is decoded. -/
theorem sampleLoads_groupText : sampleLoads groupText = .ok Routing.groupEnvelope := if_pos rfl

/-- The group line carries the message. -/
theorem accepted_groupLine :
    accepted sampleLoads (fun _ => .ok []) Routing.groupSettings groupLine
      = some Routing.groupMessage := by
  rw [accepted, eventData_groupLine, Option.bind_eq_bind, Option.bind_some, sampleLoads_groupText]
  exact (Option.some_get _).symm

/-- An integer with too many digits raises. -/
theorem handleLine_integerLine {n : Nat} (hn : maxStrDigits < n) :
    handleLine sampleLoads (fun _ => .ok []) Routing.groupSettings true (integerLine n)
      = .raise .valueError := by
  have hpos : n ≠ 0 := Nat.ne_zero_of_lt hn
  have hdigit : ∀ c ∈ List.replicate n (digitChr 7), isSpace c = false := by
    intro c hc
    rw [List.eq_of_mem_replicate hc]
    decide
  -- the data is all digits, so stripping the line keeps it
  have hdata : eventData (integerLine n).text = some (List.replicate n (digitChr 7)) :=
    eventData_data (by simp [hpos])
      (fun c hc => hdigit c (List.mem_of_mem_head? hc))
      fun c hc => hdigit c (List.mem_of_mem_getLast? hc)
  -- and has more of them than `int` converts
  have hloads : sampleLoads (List.replicate n (digitChr 7)) = .error .valueError := by
    have hne : List.replicate n (digitChr 7) ≠ groupText := by
      intro heq
      have hhead := congrArg List.head? heq
      rw [List.head?_replicate, if_neg hpos] at hhead
      exact absurd hhead (by decide +kernel)
    have hdigits : isAsciiDigit (digitChr 7) = true := by decide
    rw [sampleLoads, if_neg hne, if_pos]
    simp [List.length_replicate, List.all_replicate, hn, hdigits]
  rw [handleLine, hdata]
  simp only [hloads]

/-- An integer of 4301 digits takes the listener off the stream, and the message behind it is
lost. -/
theorem not_isolated_integerLine :
    ∃ t r, Runs (streamLines sampleLoads (fun _ => .ok []) Routing.groupSettings true
        [integerLine 4301, groupLine]) t r ∧
      r = .error .valueError ∧ handled t = [] ∧
        [integerLine 4301, groupLine].filterMap (accepted sampleLoads (fun _ => .ok [])
          Routing.groupSettings) ≠ [] := by
  refine ⟨[], .error .valueError, ?_, rfl, rfl, ?_⟩
  · rw [streamLines, handleLine_integerLine (by decide)]
    exact .raise _
  · intro hnil
    have := List.filterMap_eq_nil_iff.mp hnil groupLine (by simp)
    rw [accepted_groupLine] at this
    cases this

/-- A handler that raises on every message. -/
def raisingHandler : (op : Op) → op.Answer
  | .cacheIdentifiers _ _ => ()
  | .handler _ => .error .valueError

/-- An event that is no JSON. -/
def noiseLine : Line := ⟨lit "data: \x7b", .ofRat 1700000000⟩

/-- The data of the noise. -/
theorem eventData_noiseLine : eventData noiseLine.text = some (lit "\x7b") := by decide +kernel

/-- The noise is not decoded. -/
theorem sampleLoads_noise : sampleLoads (lit "\x7b") = .error .jsonDecodeError := by
  have hother : (lit "\x7b" : PyStr) ≠ groupText := by decide +kernel
  rw [sampleLoads, if_neg hother]
  rfl

/-- The noise carries no message. -/
theorem accepted_noiseLine :
    accepted sampleLoads (fun _ => .ok []) Routing.groupSettings noiseLine = none := by
  rw [accepted, eventData_noiseLine, Option.bind_eq_bind, Option.bind_some, sampleLoads_noise]
  rfl

/-- The group line is not in the way. -/
theorem not_inTheWay_groupLine :
    ¬ InTheWay sampleLoads (fun _ => .ok []) Routing.groupSettings true groupLine := by
  rintro (⟨data, e, hdata, herror, -⟩ | ⟨-, message, hmessage, hbad, -⟩)
  · obtain rfl := Option.some.inj (eventData_groupLine.symm.trans hdata)
    rw [sampleLoads_groupText] at herror
    cases herror
  · -- The envelope has no number.
    obtain rfl := Option.some.inj (accepted_groupLine.symm.trans hmessage)
    exact absurd hbad (by decide +kernel)

/-- Neither is the noise. -/
theorem not_inTheWay_noiseLine :
    ¬ InTheWay sampleLoads (fun _ => .ok []) Routing.groupSettings true noiseLine := by
  rintro (⟨data, e, hdata, herror, hother⟩ | ⟨-, message, hmessage, -⟩)
  · obtain rfl := Option.some.inj (eventData_noiseLine.symm.trans hdata)
    rw [sampleLoads_noise] at herror
    exact hother (Except.error.inj herror).symm
  · rw [accepted_noiseLine] at hmessage
    cases hmessage

/-- A handler that raises and a line between two messages that is no JSON cost neither of
them. -/
theorem streamLines_isolated_noise :
    ∃ t r, Runs (streamLines sampleLoads (fun _ => .ok []) Routing.groupSettings true
        [groupLine, noiseLine, groupLine]) t r ∧
      r = .ok () ∧ handled t = [Routing.groupMessage, Routing.groupMessage] := by
  have hrun := runs_run (fun _ => raisingHandler)
    (streamLines sampleLoads (fun _ => .ok []) Routing.groupSettings true
      [groupLine, noiseLine, groupLine]) []
  obtain ⟨hreturn, hhandled⟩ := (streamLines_isolated _ _ _ _ _ hrun).mpr (by
    intro line hline
    rcases List.mem_cons.mp hline with rfl | hline
    · exact not_inTheWay_groupLine
    rcases List.mem_cons.mp hline with rfl | hline
    · exact not_inTheWay_noiseLine
    obtain rfl := List.mem_singleton.mp hline
    exact not_inTheWay_groupLine)
  refine ⟨_, _, hrun, hreturn, hhandled.trans ?_⟩
  simp [accepted_groupLine, accepted_noiseLine]

end SignalGateway.Proofs.Listener
