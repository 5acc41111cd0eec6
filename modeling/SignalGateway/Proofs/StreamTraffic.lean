import SignalGateway.Lib.Contracts
import SignalGateway.Proofs.Connection

/-!
# `SignalGateway.Proofs.StreamTraffic`: every line once, across all streams

`traffic_run` says what the calls of the listener are in every run: the calls of one run of the
program for each line that has arrived, in the order of the lines, and part of a run for the
last one if its program is still under way. Reconnects, probes and forced closes add nothing and
take nothing away.

`handled_run` reads the messages off this, for the program that the listener has for a line. They
are the accepted ones, but for those whose identifiers `rememberIdentifiers` raises on: these are
lost in front of the handler (`delivered`).

`Traffic` is the invariant, and `Traffic.step` its step lemma. Its parts are:

* `Served`: a run of the program for a line that has ended.
* `Progress`: the run of the line that the consumer is handling, which may be in the middle.
* `Handles` tells the two apart.

`callFor_run` and `contract_run` are the forms in which the other modules use it: for a call in a
run, the line it was made for, and what the program guarantees of it.
-/

set_option autoImplicit false

namespace SignalGateway.Proofs.Connection

open SignalGateway.Connection SignalGateway.Listener SignalGateway.Envelope
open SignalGateway.SignalClient Prog

section
variable {I : Interface}

/-- The line that arrives with an event. -/
def lineOf : Event I → Option Line
  | .consumer (.line line) => some line
  | _ => none

/-- The lines of all streams, in order. -/
def linesOf (events : List (Timed I)) : List Line := events.filterMap fun ev => lineOf ev.1

/-- The lines of two stretches. -/
theorem linesOf_append (events events' : List (Timed I)) :
    linesOf (events ++ events') = linesOf events ++ linesOf events' := List.filterMap_append

/-- The calls are those of a run of the program for the line. -/
def Served (program : Line → Prog I PyError Unit) (line : Line) (t : List I.Event) : Prop :=
  ∃ r, Runs (program line) t r

/-- The lines that have been served, with their calls, and the calls for the line that is being
served, if there is one. -/
def Progress (program : Line → Prog I PyError Unit) (lines : List Line)
    (done : List (List I.Event)) (current : List I.Event) : Consumer I → Prop
  | .handling rest => ∃ before line, lines = before ++ [line] ∧
      List.Forall₂ (Served program) before done ∧ After (program line) current rest
  | _ => current = [] ∧ List.Forall₂ (Served program) lines done

/-- The calls so far, as the calls for the lines so far. -/
def Traffic (program : Line → Prog I PyError Unit) (lines : List Line) (s : System I) : Prop :=
  ∃ done current, s.log = done.flatten ++ current ∧
    Progress program lines done current s.consumer

variable {program : Line → Prog I PyError Unit} {s s' : System I} {lines : List Line}

/-- The consumer is in the program of a line. -/
def Handles (s : System I) : Prop := ∃ rest, s.consumer = .handling rest

/-- Outside of programs all lines have been served. -/
theorem traffic_iff_of_not_handles (h : ¬ Handles s) :
    Traffic program lines s ↔
      ∃ done, s.log = done.flatten ∧ List.Forall₂ (Served program) lines done := by
  unfold Traffic
  cases hc : s.consumer with
  | handling rest => exact absurd ⟨rest, hc⟩ h
  | _ =>
    constructor
    · rintro ⟨done, current, hlog, rfl, hdone⟩
      exact ⟨done, hlog.trans (List.append_nil _), hdone⟩
    · rintro ⟨done, hlog, hdone⟩
      exact ⟨done, [], hlog.trans (List.append_nil _).symm, rfl, hdone⟩

/-- The program of a line goes on. -/
theorem traffic_goOn {before : List Line} {line : Line} {done : List (List I.Event)}
    {current : List I.Event} {p : Prog I PyError Unit}
    (hlog : s.log = done.flatten ++ current) (hdone : List.Forall₂ (Served program) before done)
    (hafter : After (program line) current p) : Traffic program (before ++ [line]) (s.goOn p) := by
  -- If the program has ended, the line has been served.
  have hended : ∀ {r}, Runs p [] r → ¬ Handles (s.goOn p) →
      Traffic program (before ++ [line]) (s.goOn p) := by
    intro r hr hnot
    have hserved : Served program line current := ⟨r, by simpa using hafter.runs hr⟩
    refine (traffic_iff_of_not_handles hnot).mpr ⟨done ++ [current], ?_, ?_⟩
    · simp [hlog]
    · exact List.rel_append hdone (.cons hserved .nil)
  cases p with
  | pure u => exact hended (.pure u) (by rintro ⟨rest, hc⟩; cases hc)
  | raise e => exact hended (.raise e) (by rintro ⟨rest, hc⟩; cases hc)
  | call op next => exact ⟨done, current, hlog, before, line, rfl, hdone, hafter⟩

/-- A step of the consumer that neither brings a line nor answers a call. -/
theorem Traffic.same (h : Traffic program lines s) (hs : ¬ Handles s) (hs' : ¬ Handles s')
    (hlog : s'.log = s.log) : Traffic program lines s' := by
  rw [traffic_iff_of_not_handles hs] at h
  rw [traffic_iff_of_not_handles hs', hlog]
  exact h

/-- A consumer that does something else handles no line. -/
theorem not_handles {c : Consumer I} (h : s.consumer = c) (hc : ∀ rest, c ≠ .handling rest) :
    ¬ Handles s := fun ⟨rest, hrest⟩ => hc rest (h.symm.trans hrest)

/-- A step keeps the traffic in line with the lines. -/
theorem Traffic.step {ev : Timed I} (h : Traffic program lines s)
    (hstep : s.step program ev = some s') : Traffic program (lines ++ linesOf [ev]) s' := by
  obtain ⟨event, now⟩ := ev
  cases event with
  | monitor e =>
    have hsame := (step_monitor hstep).2.sameConsumer
    rw [show linesOf [(Event.monitor e, now)] = ([] : List Line) from rfl, List.append_nil, Traffic,
      hsame.log, hsame.consumer]
    exact h
  | consumer e =>
    cases (step_consumer hstep).2 with
    | line hc =>
      -- All lines before this one have been served.
      obtain ⟨done, hlog, hdone⟩ :=
        (traffic_iff_of_not_handles (not_handles hc (by simp))).mp h
      exact traffic_goOn (hlog.trans (List.append_nil _).symm) hdone (.refl _)
    | answered hc =>
      obtain ⟨done, current, hlog, hprogress⟩ := h
      rw [show s.consumer = _ from hc] at hprogress
      obtain ⟨before, line, rfl, hdone, hafter⟩ := hprogress
      rw [show linesOf [(Event.consumer (.answered _), now)] = ([] : List Line) from rfl,
        List.append_nil]
      refine traffic_goOn ?_ hdone (hafter.concat _)
      show s.log ++ _ = _
      rw [hlog, List.append_assoc]
    | connectFailed hc | connected hc | refused hc | streamEnded hc | closed hc | woken hc
    | timedOut hc =>
      rw [show linesOf _ = ([] : List Line) from rfl, List.append_nil]
      exact h.same (not_handles hc (by simp)) (by rintro ⟨rest, hrest⟩; cases hrest) rfl

variable {events : List (Timed I)} {t₀ : ℚ}

/-- In every run the calls are those of one run of the program for each line, in order, and of
part of a run for the last line. -/
theorem traffic_run (h : (System.start I t₀).run program events = some s) :
    Traffic program (linesOf events) s := by
  refine Machine.run_induction (motive := fun events s => Traffic program (linesOf events) s) ?_ ?_ h
  · exact ⟨[], [], rfl, rfl, .nil⟩
  · intro events s₁ ev s₂ ih hstep
    rw [linesOf_append]
    exact ih.step hstep

/-- The calls are those of part of a run of the program for the line. -/
def Reached (program : Line → Prog I PyError Unit) (line : Line) (t : List I.Event) : Prop :=
  ∃ rest, After (program line) t rest

/-- A line that is served was reached. -/
theorem Served.reached {line : Line} {t : List I.Event} (h : Served program line t) :
    Reached program line t := by
  obtain ⟨r, hrun⟩ := h
  exact hrun.after

/-- In every run the calls are those for the lines that have arrived, in order. -/
theorem reached_run (h : (System.start I t₀).run program events = some s) :
    ∃ calls, s.log = calls.flatten ∧ List.Forall₂ (Reached program) (linesOf events) calls := by
  obtain ⟨done, current, hlog, hprogress⟩ := traffic_run h
  cases hc : s.consumer with
  | handling rest =>
    rw [hc] at hprogress
    obtain ⟨before, line, hlines, hdone, hafter⟩ := hprogress
    refine ⟨done ++ [current], by simp [hlog], ?_⟩
    rw [hlines]
    exact List.rel_append (hdone.imp fun _ _ => Served.reached) (.cons ⟨rest, hafter⟩ .nil)
  | _ =>
    rw [hc] at hprogress
    obtain ⟨rfl, hdone⟩ := hprogress
    exact ⟨done, by simp [hlog], hdone.imp fun _ _ => Served.reached⟩

/-- A call among others as a call for a line: `earlier` are the calls for this line up to it, and
`later` those behind it. -/
def CallFor (program : Line → Prog I PyError Unit) (line : Line) (before : List I.Event)
    (ev : I.Event) (after : List I.Event) : Prop :=
  ∃ front earlier later rear, before = front ++ earlier ∧ after = later ++ rear ∧
    Reached program line (earlier ++ ev :: later)

/-- Every call for the lines is a call for one of them. -/
theorem callFor_of_flatten {calls : List (List I.Event)}
    (h : List.Forall₂ (Reached program) lines calls) :
    ∀ {before after : List I.Event} {ev : I.Event},
      calls.flatten = before ++ ev :: after →
      ∃ line ∈ lines, CallFor program line before ev after := by
  induction h with
  | nil =>
    intro before after ev heq
    exact absurd heq.symm (List.append_ne_nil_of_right_ne_nil _ (List.cons_ne_nil _ _))
  | @cons line t lines calls hreached _ ih =>
    intro before after ev heq
    rw [List.flatten_cons] at heq
    rcases List.append_eq_append_iff.mp heq with ⟨front, rfl, hrest⟩ | ⟨tail, rfl, htail⟩
    · obtain ⟨line', hline', front', earlier, later, rear, rfl, hafter, hcalls⟩ := ih hrest
      exact ⟨line', List.mem_cons_of_mem _ hline', t ++ front', earlier, later, rear,
        (List.append_assoc _ _ _).symm, hafter, hcalls⟩
    · cases tail with
      | nil =>
        -- the call is the first of the next line
        obtain ⟨line', hline', front', earlier, later, rear, hfront, hafter, hcalls⟩ :=
          @ih [] after ev htail.symm
        obtain ⟨rfl, rfl⟩ := List.append_eq_nil_iff.mp hfront.symm
        exact ⟨line', List.mem_cons_of_mem _ hline', before, [], later, rear,
          (List.append_nil _).symm, hafter, hcalls⟩
      | cons first later =>
        obtain ⟨rfl, rfl⟩ := List.cons.inj htail
        exact ⟨line, List.mem_cons_self, [], before, later, calls.flatten, rfl, rfl, hreached⟩

/-- In every run, every call is a call for a line that has arrived. -/
theorem callFor_run (h : (System.start I t₀).run program events = some s)
    {before after : List I.Event} {ev : I.Event} (hlog : s.log = before ++ ev :: after) :
    ∃ line ∈ linesOf events, CallFor program line before ev after := by
  obtain ⟨calls, hcalls, hlines⟩ := reached_run h
  exact callFor_of_flatten hlines (hcalls.symm.trans hlog)

/-- If the programs uphold a guarantee and the calls are answered as assumed, then every call is
as the program of one of the lines guarantees. -/
theorem contract_run {A : I.Event → Prop} {G : Line → I.Op → Prop}
    (hG : ∀ line, (program line).Contract A (G line) fun _ => True)
    (h : (System.start I t₀).run program events = some s) (hA : ∀ ev ∈ s.log, A ev) :
    ∀ ev ∈ s.log, ∃ line ∈ linesOf events, G line ev.1 := by
  intro ev hev
  obtain ⟨before, after, hlog⟩ := List.append_of_mem hev
  obtain ⟨line, hline, front, earlier, later, rear, rfl, rfl, rest, hcall⟩ := callFor_run h hlog
  refine ⟨line, hline, Contract.after hcall (hG line) (fun ev' hev' => hA ev' ?_) ev (by simp)⟩
  rw [hlog]
  simp only [List.mem_append, List.mem_cons] at hev' ⊢
  tauto

end

/-! ### The messages -/

section
variable (loads : PyStr → Except PyError Json) (repr : Json → Except PyError PyStr)
  (settings : Settings) (hasClient : Bool)

/-- The message that a line hands to the handler. The identifiers are remembered first. An accepted
message whose identifiers raise there is lost: the handler never sees it. -/
def delivered (line : Line) : Option InboundMessage :=
  (Listener.accepted loads repr settings line).filter fun message =>
    !hasClient || (rememberIdentifiers message.sourceNumber message.sourceUuid).toBool

end

variable {loads : PyStr → Except PyError Json} {repr : Json → Except PyError PyStr}
  {settings : Settings} {hasClient : Bool}

/-- The identifiers that do not raise. -/
theorem rememberIdentifiers_toBool (message : InboundMessage) :
    (rememberIdentifiers message.sourceNumber message.sourceUuid).toBool = true ↔
      ¬ Listener.BadIdentifiers message.sourceNumber message.sourceUuid := by
  rw [← Listener.rememberIdentifiers_raises_iff]
  cases rememberIdentifiers message.sourceNumber message.sourceUuid <;> simp [Except.toBool]

/-- A run for a line hands over its message. -/
theorem handled_of_served {line : Line} {t : List Listener.calls.Event}
    (h : Served (handleLine loads repr settings hasClient) line t) :
    Listener.handled t = (delivered loads repr settings hasClient line).toList := by
  obtain ⟨r, h⟩ := h
  -- A line without data that parses, a message whose identifiers raise, or a call of the handler.
  unfold delivered
  rcases Listener.runs_handleLine h with ⟨⟨data, e, hdata, herror, -⟩, -, hnil⟩ | ⟨-, -, hlost | hkept⟩
  · have hnone : Listener.accepted loads repr settings line = none := by
      rw [Listener.accepted_of_data hdata, herror]
      rfl
    rw [hnil, hnone]
    rfl
  · obtain ⟨⟨hclient, message, hsome, hbad⟩, hnil⟩ := hlost
    have hraises := mt (rememberIdentifiers_toBool message).mp (not_not.mpr hbad)
    rw [hnil, hsome, hclient]
    simp [Option.filter, hraises]
  · obtain ⟨hremembers, heq⟩ := hkept
    rw [heq]
    cases hsome : Listener.accepted loads repr settings line with
    | none => rfl
    | some message =>
      have hkeeps : (!hasClient || (rememberIdentifiers message.sourceNumber
          message.sourceUuid).toBool) = true := by
        rw [Bool.or_eq_true, Bool.not_eq_true', rememberIdentifiers_toBool]
        by_contra hnot
        obtain ⟨hclient, hbad⟩ := not_or.mp hnot
        exact hremembers ⟨by simpa using hclient, message, hsome, not_not.mp hbad⟩
      rw [Option.filter, if_pos hkeeps]

/-- The lines that are served hand on the messages they deliver. -/
theorem handled_flatten {lines : List Line} {done : List (List Listener.calls.Event)}
    (h : List.Forall₂ (Served (handleLine loads repr settings hasClient)) lines done) :
    Listener.handled done.flatten = lines.filterMap (delivered loads repr settings hasClient) := by
  induction h with
  | nil => rfl
  | @cons line t lines done hserved _ ih =>
    rw [List.flatten_cons, Listener.handled_append, ih, handled_of_served hserved]
    cases hd : delivered loads repr settings hasClient line <;> simp [hd]

/-- An environment that answers every call. -/
def calmListener : (op : Op) → op.Answer
  | .cacheIdentifiers _ _ => ()
  | .handler _ => Except.ok ()

/-- In every run, across all connections, the handler has got the messages that the lines deliver,
each once and in order. At most the message of the last line is missing, while its program is
under way. -/
theorem handled_run {events : List (Timed Listener.calls)} {t₀ : ℚ} {s : System Listener.calls}
    (h : (System.start Listener.calls t₀).run (handleLine loads repr settings hasClient) events
      = some s) :
    ∃ missing, Listener.handled s.log ++ missing
        = (linesOf events).filterMap (delivered loads repr settings hasClient) ∧
      missing.length ≤ 1 ∧ (¬ Handles s → missing = []) := by
  by_cases hh : Handles s
  · obtain ⟨rest, hc⟩ := hh
    obtain ⟨done, current, hlog, hprogress⟩ := traffic_run h
    rw [hc] at hprogress
    obtain ⟨before, line, hlines, hdone, hafter⟩ := hprogress
    -- The messages of the last line are those of any completion of its run.
    obtain ⟨t', r, hrun⟩ := hafter.complete calmListener
    have hlast := handled_of_served ⟨r, hrun⟩
    rw [Listener.handled_append] at hlast
    refine ⟨Listener.handled t', ?_, ?_, fun hnot => absurd ⟨rest, hc⟩ hnot⟩
    · rw [hlog, Listener.handled_append, handled_flatten hdone, hlines, List.filterMap_append,
        List.append_assoc, hlast]
      cases hd : delivered loads repr settings hasClient line <;> simp [hd]
    · have hlength := congrArg List.length hlast
      rw [List.length_append] at hlength
      have hone : (delivered loads repr settings hasClient line).toList.length ≤ 1 := by
        cases delivered loads repr settings hasClient line <;> simp
      omega
  · obtain ⟨done, hlog, hdone⟩ := (traffic_iff_of_not_handles hh).mp (traffic_run h)
    exact ⟨[], by rw [List.append_nil, hlog, handled_flatten hdone], Nat.zero_le _, fun _ => rfl⟩

/-- The first connect fails. On the second stream a message arrives, and its handler returns. -/
def secondConnect : List (Timed Listener.calls) :=
  [(.consumer (.connectFailed 0), 0), (.consumer .timedOut, 2), (.consumer (.responded 200), 3),
    (.consumer (.line Proofs.Listener.groupLine), 4), (.consumer (.answered calmListener), 5),
    (.consumer .streamEnded, 6)]

/-- The message on a second connect is handled. -/
theorem handled_run_secondConnect : ∃ s, (System.start Listener.calls 0).run
      (handleLine Proofs.Listener.sampleLoads (fun _ => .ok []) Routing.groupSettings true)
      secondConnect = some s ∧
    ∃ missing, Listener.handled s.log ++ missing
        = (linesOf secondConnect).filterMap
          (delivered Proofs.Listener.sampleLoads (fun _ => .ok []) Routing.groupSettings true) ∧
      missing.length ≤ 1 ∧ (¬ Handles s → missing = []) := by
  obtain ⟨s, hrun⟩ := Option.isSome_iff_exists.mp (show ((System.start Listener.calls 0).run
      (handleLine Proofs.Listener.sampleLoads (fun _ => .ok []) Routing.groupSettings true)
      secondConnect).isSome = true by decide +kernel)
  exact ⟨s, hrun, handled_run hrun⟩

end SignalGateway.Proofs.Connection
