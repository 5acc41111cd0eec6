import SignalGateway.CallbackServer
import SignalGateway.Proofs.Dedup

/-!
# `SignalGateway.Proofs.CallbackServer`: deliver-then-mark dedup over whole runs

`Inv s log` ties the server to the records of its run. The in-flight set holds the keys of
the running deliveries, one delivery a key. A delivery runs when it was accepted and has not
finished. The cache tracks the times of the successful finishes (`marksOf log`).

`inv_step` is the step lemma and `inv_run` the run lemma. `complete_ignored_iff` reads the
decision on a `complete` callback off the records: it is ignored when a delivery of its key
has not finished, or one finished successfully within the TTL.

The parts of the step lemma are about one kind of event each: a request that is answered without
the state (`Inv.answered`), a `complete` payload (`answerComplete_cases`), and the end of a
delivery (`Inv.finish`). `step_cases` is the inversion lemma behind them.

`exists_run_filter` is about two runs: events that a relation between two servers does not notice
can be left out of one of them. `CallbackKeys` and `CallbackTraffic` use it with their own
relations.

The cache forgets entries when it sweeps, and `Proofs.Dedup` says that this does not show. The
marks of the log are therefore all that is needed to decide a callback.
-/

set_option autoImplicit false

namespace SignalGateway.Proofs.CallbackServer

open SignalGateway.Dedup SignalGateway.Dispatch SignalGateway.CallbackServer
open SignalGateway.Proofs.Dedup

/-! ### The history in the records -/

/-- The delivery was accepted. -/
def Accepted (log : List Record) (d : Delivery) : Prop :=
  .answered d.id (.ok (.accepted d.payload)) ∈ log

/-- The delivery finished, and nothing is said about when or how. -/
def Finished (log : List Record) (d : Delivery) : Prop :=
  ∃ ok t, .finished d ok t ∈ log

/-- The history of marks after one more record. -/
def markRecord (marks : PyStr → Option ℚ) : Record → PyStr → Option ℚ
  | .finished d true t => Function.update marks d.key (some t)
  | _ => marks

/-- For each key, the time of its last successful finish. -/
def marksOf (log : List Record) : PyStr → Option ℚ := log.foldl markRecord fun _ => none

/-- The marks after one more record. -/
theorem marksOf_append (log : List Record) (r : Record) :
    marksOf (log ++ [r]) = markRecord (marksOf log) r := by
  simp [marksOf]

/-! ### What one event does -/

/-- The request carries the worker token and the payload of a `complete` callback. -/
def IsComplete (cfg : Config) (request : Request) (p : CallbackPayload) : Prop :=
  request.token = some cfg.engineApiKey ∧ p.type = .complete ∧
    ∃ body ∈ request.body, parseCallbackPayload body = .ok (some p)

/-- The handler decides on a `complete` payload, or answers without the state. -/
theorem progressCallback_complete_or (cfg : Config) (request : Request) (now : ℚ) :
    (∃ p, IsComplete cfg request p ∧
        ∀ app, progressCallback cfg app request now = .ok (answerComplete app p now)) ∨
    (∃ answer : Except PyError Answer, (∀ p, answer ≠ .ok (.accepted p)) ∧
        ∀ app, progressCallback cfg app request now = answer.map (·, app)) := by
  unfold progressCallback
  by_cases htoken : request.token = some cfg.engineApiKey
  · simp only [htoken, ne_eq, not_true_eq_false, if_false]
    cases hbody : request.body with
    | none => exact Or.inr ⟨.ok .malformedJson, by simp, fun _ => rfl⟩
    | some body =>
      simp only
      cases hparse : parseCallbackPayload body with
      | error e => exact Or.inr ⟨.error e, by simp, fun _ => rfl⟩
      | ok payload =>
        cases payload with
        | none => exact Or.inr ⟨.ok .unrecognized, by simp, fun _ => rfl⟩
        | some p =>
          simp only [bind, Except.bind]
          by_cases hstatus : p.type = .status
          · simp only [hstatus, if_true]
            exact Or.inr ⟨.ok .statusAcked, by simp, fun _ => rfl⟩
          · simp only [hstatus, if_false]
            by_cases hclient : cfg.hasSignalClient = true
            · simp only [hclient, Bool.not_true, Bool.false_eq_true, if_false]
              by_cases hother : p.type = .progress ∨ p.type = .error
              · simp only [hother, if_true]
                exact Or.inr ⟨.ok (.dispatched p), by simp, fun _ => rfl⟩
              · simp only [hother, if_false]
                refine Or.inl ⟨p, ⟨htoken, ?_, body, hbody, hparse⟩, fun _ => rfl⟩
                -- the type that is neither status, progress nor error is `complete`
                cases htype : p.type <;> simp_all
            · simp only [hclient, Bool.not_false, if_true]
              exact Or.inr ⟨.ok (.noSignalClient p), by simp, fun _ => rfl⟩
  · simp only [htoken, ne_eq, not_false_eq_true, if_true]
    exact Or.inr ⟨.ok .badToken, by simp, fun _ => rfl⟩

/-- A `complete` payload is ignored or reserves its key. -/
theorem answerComplete_cases (app : AppState) (p : CallbackPayload) (now : ℚ) :
    (((app.dedup.isCompleted p.messageKey now).1 = true ∨ p.messageKey ∈ app.inFlight) ∧
      answerComplete app p now
        = (.duplicate p, { app with dedup := (app.dedup.isCompleted p.messageKey now).2 })) ∨
    (¬ (app.dedup.isCompleted p.messageKey now).1 = true ∧ p.messageKey ∉ app.inFlight ∧
      answerComplete app p now
        = (.accepted p, ⟨(app.dedup.isCompleted p.messageKey now).2,
            insert p.messageKey app.inFlight⟩)) := by
  unfold answerComplete
  simp only [Bool.or_eq_true, decide_eq_true_eq]
  split
  · rename_i h
    exact Or.inl ⟨h, rfl⟩
  · rename_i h
    exact Or.inr ⟨fun hc => h (Or.inl hc), fun hf => h (Or.inr hf), rfl⟩

/-- A request that schedules nothing only gets its answer. -/
theorem step_answered {cfg : Config} {s : Server} {id : Nat} {request : Request} {now : ℚ}
    (hid : s.nextId ≤ id) (hnow : s.clock ≤ now) {answer : Except PyError Answer}
    (hne : ∀ p, answer ≠ .ok (.accepted p))
    (heq : progressCallback cfg s.app request now = answer.map (·, s.app)) :
    step cfg s (.request id request now)
      = some (⟨s.app, s.running, id + 1, now⟩, .answered id answer) := by
  rw [step, if_pos ⟨hid, hnow⟩, heq]
  cases answer with
  | error e => rfl
  | ok answer =>
    have hstarted : startedBy id answer = [] := by
      cases answer with
      | accepted p => exact absurd rfl (hne p)
      | _ => rfl
    simp [Except.map, hstarted]

/-- A complete request is answered from the state of its key. -/
theorem step_complete {cfg : Config} {s : Server} {id : Nat} {request : Request} {now : ℚ}
    (hid : s.nextId ≤ id) (hnow : s.clock ≤ now) {p : CallbackPayload}
    (heq : progressCallback cfg s.app request now = .ok (answerComplete s.app p now)) :
    step cfg s (.request id request now)
      = some (⟨(answerComplete s.app p now).2,
          s.running ++ startedBy id (answerComplete s.app p now).1, id + 1, now⟩,
          .answered id (.ok (answerComplete s.app p now).1)) := by
  rw [step, if_pos ⟨hid, hnow⟩, heq]

/-- A delivery that ends marks its key. -/
theorem step_finish {cfg : Config} {s : Server} {d : Delivery} {outcome : Outcome} {now : ℚ}
    (hd : d ∈ s.running) (hnow : s.clock ≤ now) :
    step cfg s (.finish d outcome now)
      = some (⟨deliverAndMark s.app d.payload outcome now, s.running.erase d, s.nextId, now⟩,
          .finished d outcome.delivered now) := by
  rw [step, if_pos ⟨hd, hnow⟩]

/-- An event is a request that is answered without the state, a request that is decided on,
or the end of a running delivery. -/
theorem step_cases {cfg : Config} {s s' : Server} {e : Event} {r : Record}
    (h : step cfg s e = some (s', r)) :
    (∃ id request now, ∃ answer : Except PyError Answer, e = .request id request now ∧
        s.nextId ≤ id ∧ s.clock ≤ now ∧ (∀ p, answer ≠ .ok (.accepted p)) ∧
        (∀ app, progressCallback cfg app request now = answer.map (·, app)) ∧
        r = .answered id answer ∧ s' = ⟨s.app, s.running, id + 1, now⟩) ∨
    (∃ id request now p, e = .request id request now ∧ s.nextId ≤ id ∧ s.clock ≤ now ∧
        IsComplete cfg request p ∧
        (∀ app, progressCallback cfg app request now = .ok (answerComplete app p now)) ∧
        r = .answered id (.ok (answerComplete s.app p now).1) ∧
        s' = ⟨(answerComplete s.app p now).2,
          s.running ++ startedBy id (answerComplete s.app p now).1, id + 1, now⟩) ∨
    (∃ d outcome now, e = .finish d outcome now ∧ d ∈ s.running ∧ s.clock ≤ now ∧
        r = .finished d outcome.delivered now ∧
        s' = ⟨deliverAndMark s.app d.payload outcome now, s.running.erase d, s.nextId,
          now⟩) := by
  cases e with
  | request id request now =>
    -- an id or a clock that goes back is no step
    by_cases hguard : s.nextId ≤ id ∧ s.clock ≤ now
    · obtain ⟨hid, hnow⟩ := hguard
      rcases progressCallback_complete_or cfg request now with
        ⟨p, hcomplete, heq⟩ | ⟨answer, hne, heq⟩
      · right; left
        rw [step_complete hid hnow (heq s.app)] at h
        simp only [Option.some.injEq, Prod.mk.injEq] at h
        exact ⟨id, request, now, p, rfl, hid, hnow, hcomplete, heq, h.2.symm, h.1.symm⟩
      · left
        rw [step_answered hid hnow hne (heq s.app)] at h
        simp only [Option.some.injEq, Prod.mk.injEq] at h
        exact ⟨id, request, now, answer, rfl, hid, hnow, hne, heq, h.2.symm, h.1.symm⟩
    · rw [step, if_neg hguard] at h
      cases h
  | finish d outcome now =>
    by_cases hguard : d ∈ s.running ∧ s.clock ≤ now
    · obtain ⟨hd, hnow⟩ := hguard
      rw [step_finish hd hnow] at h
      simp only [Option.some.injEq, Prod.mk.injEq] at h
      exact Or.inr (Or.inr ⟨d, outcome, now, rfl, hd, hnow, h.2.symm, h.1.symm⟩)
    · rw [step, if_neg hguard] at h
      cases h

/-! ### The invariant -/

/-- What the records of a run say about the server. -/
structure Inv (ttl : ℚ) (s : Server) (log : List Record) : Prop where
  ttl_eq : s.app.dedup.ttl = ttl
  tracks : Tracks s.app.dedup (marksOf log) s.clock
  inFlight_iff : ∀ k, k ∈ s.app.inFlight ↔ ∃ d ∈ s.running, d.key = k
  keys_nodup : (s.running.map Delivery.key).Nodup
  running_iff : ∀ d, d ∈ s.running ↔ Accepted log d ∧ ¬ Finished log d
  accepted_of_finished : ∀ d, Finished log d → Accepted log d
  id_lt : ∀ d, Accepted log d → d.id < s.nextId
  mark_mem : ∀ k, ∀ m ∈ marksOf log k, ∃ d, d.key = k ∧ .finished d true m ∈ log
  mark_le : ∀ d t, .finished d true t ∈ log → ∃ m ∈ marksOf log d.key, t ≤ m
  mark_le_clock : ∀ k, ∀ m ∈ marksOf log k, m ≤ s.clock

/-- The invariant of a fresh server. -/
theorem inv_create (ttl sweepInterval now : ℚ) :
    Inv ttl (.create ttl sweepInterval now) [] where
  ttl_eq := rfl
  tracks := tracks_create ttl sweepInterval now
  inFlight_iff := by simp [Server.create]
  keys_nodup := List.nodup_nil
  running_iff := by simp [Server.create, Accepted]
  accepted_of_finished := by simp [Finished]
  id_lt := by simp [Accepted]
  mark_mem := by simp [marksOf]
  mark_le := by simp
  mark_le_clock := by simp [marksOf]

/-- The marks are the last successful finishes of the keys. -/
structure Marked (log : List Record) (now : ℚ) : Prop where
  mem : ∀ k, ∀ m ∈ marksOf log k, ∃ d, d.key = k ∧ .finished d true m ∈ log
  le : ∀ d t, .finished d true t ∈ log → ∃ m ∈ marksOf log d.key, t ≤ m
  le_now : ∀ k, ∀ m ∈ marksOf log k, m ≤ now

/-- A key is marked by the delivery that was finished last. -/
theorem Inv.marked {ttl : ℚ} {s : Server} {log : List Record} (h : Inv ttl s log) :
    Marked log s.clock :=
  ⟨h.mark_mem, h.mark_le, h.mark_le_clock⟩

/-- Only a successful finish is a mark. -/
theorem Marked.append {log : List Record} {t₀ now : ℚ} (h : Marked log t₀) (hnow : t₀ ≤ now)
    {r : Record} (hr : ∀ d t, r ≠ .finished d true t) : Marked (log ++ [r]) now := by
  have hmarks : marksOf (log ++ [r]) = marksOf log := by
    rw [marksOf_append]
    cases r with
    | answered id answer => rfl
    | finished d ok t =>
      cases ok with
      | false => rfl
      | true => exact absurd rfl (hr d t)
  refine ⟨fun k m hm => ?_, fun d t hmem => ?_, fun k m hm => ?_⟩
  · rw [hmarks] at hm
    obtain ⟨d, hd, hmem⟩ := h.mem k m hm
    exact ⟨d, hd, List.mem_append_left _ hmem⟩
  · rw [hmarks]
    rcases List.mem_append.mp hmem with hmem | hmem
    · exact h.le d t hmem
    · exact absurd (List.mem_singleton.mp hmem).symm (hr d t)
  · rw [hmarks] at hm
    exact (h.le_now k m hm).trans hnow

/-- A successful finish marks its key, and is the last mark there. -/
theorem Marked.finished {log : List Record} {t₀ now : ℚ} (h : Marked log t₀) (hnow : t₀ ≤ now)
    (d : Delivery) : Marked (log ++ [.finished d true now]) now := by
  have hmarks : marksOf (log ++ [.finished d true now])
      = Function.update (marksOf log) d.key (some now) := marksOf_append _ _
  -- in each field, the key of the delivery has the new mark and the others keep theirs
  refine ⟨fun k m hm => ?_, fun e t hmem => ?_, fun k m hm => ?_⟩
  · rw [hmarks] at hm
    by_cases hk : k = d.key
    · rw [hk, Function.update_self] at hm
      cases hm
      exact ⟨d, hk.symm, by simp⟩
    · rw [Function.update_of_ne hk] at hm
      obtain ⟨e, he, hmem⟩ := h.mem k m hm
      exact ⟨e, he, List.mem_append_left _ hmem⟩
  · rw [hmarks]
    rcases List.mem_append.mp hmem with hmem | hmem
    · obtain ⟨m, hm, hle⟩ := h.le e t hmem
      by_cases hk : e.key = d.key
      · rw [hk, Function.update_self]
        exact ⟨now, rfl, hle.trans ((h.le_now _ m hm).trans hnow)⟩
      · rw [Function.update_of_ne hk]
        exact ⟨m, hm, hle⟩
    · obtain ⟨rfl, -, rfl⟩ := Record.finished.inj (List.mem_singleton.mp hmem)
      rw [Function.update_self]
      exact ⟨t, rfl, le_rfl⟩
  · rw [hmarks] at hm
    by_cases hk : k = d.key
    · rw [hk, Function.update_self] at hm
      cases hm
      exact le_rfl
    · rw [Function.update_of_ne hk] at hm
      exact (h.le_now k m hm).trans hnow

/-- A record that is neither an acceptance nor a finish changes no delivery. -/
theorem Inv.answered {ttl : ℚ} {s : Server} {log : List Record} (h : Inv ttl s log)
    {dedup : CompletedKeys} {id : Nat} {now : ℚ} {answer : Except PyError Answer}
    (hid : s.nextId ≤ id) (hnow : s.clock ≤ now) (hne : ∀ p, answer ≠ .ok (.accepted p))
    (httl : dedup.ttl = ttl) (htracks : Tracks dedup (marksOf log) now) :
    Inv ttl ⟨{ s.app with dedup }, s.running, id + 1, now⟩
      (log ++ [.answered id answer]) := by
  -- the record accepts nothing and finishes nothing
  have haccepted : ∀ d, Accepted (log ++ [.answered id answer]) d ↔ Accepted log d := by
    intro d
    simp only [Accepted, List.mem_append, List.mem_singleton, Record.answered.injEq]
    refine ⟨?_, Or.inl⟩
    rintro (hmem | ⟨-, heq⟩)
    · exact hmem
    · exact absurd heq.symm (hne d.payload)
  have hfinished : ∀ d, Finished (log ++ [.answered id answer]) d ↔ Finished log d := by
    intro d
    simp [Finished]
  have hmarks : marksOf (log ++ [.answered id answer]) = marksOf log := marksOf_append _ _
  have hmarked : Marked (log ++ [.answered id answer]) now :=
    h.marked.append hnow fun d t heq => by cases heq
  constructor
  case ttl_eq => exact httl
  case tracks => rw [hmarks]; exact htracks
  case inFlight_iff => exact h.inFlight_iff
  case keys_nodup => exact h.keys_nodup
  case running_iff => intro d; rw [haccepted, hfinished]; exact h.running_iff d
  case accepted_of_finished =>
    intro d
    rw [haccepted, hfinished]
    exact h.accepted_of_finished d
  case id_lt =>
    intro d hd
    have := h.id_lt d ((haccepted d).mp hd)
    show d.id < id + 1
    omega
  case mark_mem => exact hmarked.mem
  case mark_le => exact hmarked.le
  case mark_le_clock => exact hmarked.le_now

/-- An acceptance starts a delivery of a key that has none. -/
theorem Inv.accept {ttl : ℚ} {s : Server} {log : List Record} (h : Inv ttl s log)
    {dedup : CompletedKeys} {id : Nat} {now : ℚ} {p : CallbackPayload}
    (hid : s.nextId ≤ id) (hnow : s.clock ≤ now) (hfree : p.messageKey ∉ s.app.inFlight)
    (httl : dedup.ttl = ttl) (htracks : Tracks dedup (marksOf log) now) :
    Inv ttl ⟨⟨dedup, insert p.messageKey s.app.inFlight⟩, s.running ++ [⟨id, p⟩], id + 1, now⟩
      (log ++ [.answered id (.ok (.accepted p))]) := by
  have haccepted : ∀ d, Accepted (log ++ [.answered id (.ok (.accepted p))]) d ↔
      Accepted log d ∨ d = ⟨id, p⟩ := by
    rintro ⟨id', p'⟩
    simp [Accepted]
  have hfinished : ∀ d, Finished (log ++ [.answered id (.ok (.accepted p))]) d ↔
      Finished log d := by
    intro d
    simp [Finished]
  have hmarks : marksOf (log ++ [.answered id (.ok (.accepted p))]) = marksOf log :=
    marksOf_append _ _
  have hmarked : Marked (log ++ [.answered id (.ok (.accepted p))]) now :=
    h.marked.append hnow fun d t heq => by cases heq
  -- The number is new, so nothing was recorded for this delivery.
  have hnew : ¬ Accepted log ⟨id, p⟩ := by
    intro hacc
    have := h.id_lt _ hacc
    simp only at this
    omega
  constructor
  case ttl_eq => exact httl
  case tracks => rw [hmarks]; exact htracks
  case inFlight_iff =>
    intro k
    simp only [Finset.mem_insert, h.inFlight_iff, List.mem_append, List.mem_singleton]
    constructor
    · rintro (rfl | ⟨d, hd, hk⟩)
      · exact ⟨⟨id, p⟩, Or.inr rfl, rfl⟩
      · exact ⟨d, Or.inl hd, hk⟩
    · rintro ⟨d, hd | rfl, hk⟩
      · exact Or.inr ⟨d, hd, hk⟩
      · exact Or.inl hk.symm
  case keys_nodup =>
    rw [List.map_append, List.nodup_append]
    refine ⟨h.keys_nodup, by simp, ?_⟩
    intro k hk k' hk' heq
    obtain ⟨d, hd, rfl⟩ := List.mem_map.mp hk
    simp only [List.map_cons, List.map_nil, List.mem_singleton] at hk'
    exact hfree ((h.inFlight_iff _).mpr ⟨d, hd, heq.trans hk'⟩)
  case running_iff =>
    intro d
    simp only [List.mem_append, List.mem_singleton, h.running_iff, haccepted, hfinished]
    constructor
    · rintro (⟨hacc, hfin⟩ | rfl)
      · exact ⟨Or.inl hacc, hfin⟩
      · exact ⟨Or.inr rfl, fun hfin => hnew (h.accepted_of_finished _ hfin)⟩
    · rintro ⟨hacc | heq, hfin⟩
      · exact Or.inl ⟨hacc, hfin⟩
      · exact Or.inr heq
  case accepted_of_finished =>
    intro d
    rw [haccepted, hfinished]
    exact fun hfin => Or.inl (h.accepted_of_finished d hfin)
  case id_lt =>
    intro d hd
    show d.id < id + 1
    rcases (haccepted d).mp hd with hacc | rfl
    · have := h.id_lt d hacc
      omega
    · exact Nat.lt_succ_self _
  case mark_mem => exact hmarked.mem
  case mark_le => exact hmarked.le
  case mark_le_clock => exact hmarked.le_now

/-- The end of a delivery releases its key, and marks it if the delivery succeeded. -/
theorem Inv.finish {ttl : ℚ} {s : Server} {log : List Record} (h : Inv ttl s log)
    {d : Delivery} {outcome : Outcome} {now : ℚ} (hd : d ∈ s.running) (hnow : s.clock ≤ now) :
    Inv ttl ⟨deliverAndMark s.app d.payload outcome now, s.running.erase d, s.nextId, now⟩
      (log ++ [.finished d outcome.delivered now]) := by
  have hnodup : s.running.Nodup := List.Nodup.of_map _ h.keys_nodup
  have haccepted : ∀ e, Accepted (log ++ [.finished d outcome.delivered now]) e ↔
      Accepted log e := by
    intro e
    simp [Accepted]
  have hfinished : ∀ e, Finished (log ++ [.finished d outcome.delivered now]) e ↔
      Finished log e ∨ e = d := by
    intro e
    simp only [Finished, List.mem_append, List.mem_singleton, Record.finished.injEq]
    constructor
    · rintro ⟨ok, t, hmem | ⟨rfl, -, -⟩⟩
      · exact Or.inl ⟨ok, t, hmem⟩
      · exact Or.inr rfl
    · rintro (⟨ok, t, hmem⟩ | rfl)
      · exact ⟨ok, t, Or.inl hmem⟩
      · exact ⟨_, _, Or.inr ⟨rfl, rfl, rfl⟩⟩
  have hmarks : marksOf (log ++ [.finished d outcome.delivered now])
      = if outcome.delivered then Function.update (marksOf log) d.key (some now)
        else marksOf log := by
    rw [marksOf_append]
    cases outcome.delivered <;> rfl
  have hmarked : Marked (log ++ [.finished d outcome.delivered now]) now := by
    cases outcome.delivered with
    | false => exact h.marked.append hnow fun e t heq => by cases heq
    | true => exact h.marked.finished hnow d
  -- The keys of the running deliveries are distinct, so only `d` had this one.
  have hothers : ∀ e ∈ s.running, e.key = d.key → e = d := by
    intro e he hkey
    exact List.inj_on_of_nodup_map h.keys_nodup he hd hkey
  constructor
  case ttl_eq =>
    show (if outcome.delivered then _ else s.app.dedup).ttl = ttl
    split
    · rw [ttl_markCompleted]
      exact h.ttl_eq
    · exact h.ttl_eq
  case tracks =>
    rw [hmarks]
    show Tracks (if outcome.delivered then _ else s.app.dedup) _ now
    split
    · exact h.tracks.markCompleted hnow d.key
    · exact h.tracks.mono hnow
  case inFlight_iff =>
    intro k
    show k ∈ s.app.inFlight.erase d.key ↔ _
    simp only [Finset.mem_erase, h.inFlight_iff, hnodup.mem_erase_iff]
    constructor
    · rintro ⟨hk, e, he, rfl⟩
      exact ⟨e, ⟨fun heq => hk (by rw [heq]), he⟩, rfl⟩
    · rintro ⟨e, ⟨hne, he⟩, rfl⟩
      exact ⟨fun hkey => hne (hothers e he hkey), e, he, rfl⟩
  case keys_nodup => exact h.keys_nodup.sublist (List.erase_sublist.map _)
  case running_iff =>
    intro e
    simp only [hnodup.mem_erase_iff, h.running_iff, haccepted, hfinished, not_or]
    tauto
  case accepted_of_finished =>
    intro e hfin
    rw [haccepted]
    rcases (hfinished e).mp hfin with hfin | rfl
    · exact h.accepted_of_finished e hfin
    · exact ((h.running_iff e).mp hd).1
  case id_lt => exact fun e he => h.id_lt e ((haccepted e).mp he)
  case mark_mem => exact hmarked.mem
  case mark_le => exact hmarked.le
  case mark_le_clock => exact hmarked.le_now

/-- One event keeps the invariant. -/
theorem inv_step {cfg : Config} {ttl : ℚ} {s s' : Server} {log : List Record} {e : Event}
    {r : Record} (h : Inv ttl s log) (hstep : step cfg s e = some (s', r)) :
    Inv ttl s' (log ++ [r]) := by
  rcases step_cases hstep with ⟨id, request, now, answer, -, hid, hnow, hne, -, rfl, rfl⟩ |
    ⟨id, request, now, p, -, hid, hnow, -, -, rfl, rfl⟩ |
    ⟨d, outcome, now, -, hd, hnow, rfl, rfl⟩
  · exact h.answered hid hnow hne h.ttl_eq (h.tracks.mono hnow)
  · have httl := (ttl_isCompleted s.app.dedup p.messageKey now).trans h.ttl_eq
    have htracks := h.tracks.isCompleted hnow p.messageKey
    rcases answerComplete_cases s.app p now with ⟨-, hans⟩ | ⟨-, hfree, hans⟩
    · rw [hans]
      have hne : ∀ q, (.ok (.duplicate p) : Except PyError Answer) ≠ .ok (.accepted q) := by
        simp
      simpa [startedBy] using h.answered hid hnow hne httl htracks
    · rw [hans]
      exact h.accept hid hnow hfree httl htracks
  · exact h.finish hd hnow

/-- The first step, and the run from there. -/
theorem run_cons_eq_some {cfg : Config} {s s' : Server} {e : Event} {es : List Event}
    {log : List Record} :
    run cfg s (e :: es) = some (s', log) ↔ ∃ s₁ r log₁, step cfg s e = some (s₁, r) ∧
      run cfg s₁ es = some (s', log₁) ∧ log = r :: log₁ := by
  simp only [run, Option.bind_eq_bind, Option.bind_eq_some_iff, Prod.exists,
    Option.some.injEq, Prod.mk.injEq]
  constructor
  · rintro ⟨s₁, r, hstep, s₂, log₁, hrest, rfl, rfl⟩
    exact ⟨s₁, r, log₁, hstep, hrest, rfl⟩
  · rintro ⟨s₁, r, log₁, hstep, hrest, rfl⟩
    exact ⟨s₁, r, hstep, s', log₁, hrest, rfl, rfl⟩

/-- The records of the events that are kept. -/
def keptRecords (keep : Event → Bool) (es : List Event) (log : List Record) : List Record :=
  ((es.zip log).filter fun entry => keep entry.1).map Prod.snd

/-- Events that a relation between two servers does not notice can be left out of the second
run. The relation may look at the records so far. -/
theorem exists_run_filter {cfg : Config} (keep : Event → Bool)
    {R : Server → List Record → Server → List Record → Prop}
    (hskip : ∀ {s s' s₁ : Server} {past past' : List Record} {e : Event} {r : Record},
      R s past s' past' → keep e = false → step cfg s e = some (s₁, r) →
      R s₁ (past ++ [r]) s' past')
    (hstep : ∀ {s s' s₁ : Server} {past past' : List Record} {e : Event} {r : Record},
      R s past s' past' → keep e = true → step cfg s e = some (s₁, r) →
      ∃ s₁', step cfg s' e = some (s₁', r) ∧ R s₁ (past ++ [r]) s₁' (past' ++ [r])) :
    ∀ {es : List Event} {s s₁ s' : Server} (past past' : List Record) {log : List Record},
      R s past s' past' → run cfg s es = some (s₁, log) →
      ∃ s₁', run cfg s' (es.filter keep) = some (s₁', keptRecords keep es log) ∧
        R s₁ (past ++ log) s₁' (past' ++ keptRecords keep es log) := by
  intro es
  induction es with
  | nil =>
    intro s s₁ s' past past' log h hrun
    simp only [run, Option.some.injEq, Prod.mk.injEq] at hrun
    obtain ⟨rfl, rfl⟩ := hrun
    exact ⟨s', rfl, by simpa [keptRecords] using h⟩
  | cons e es ih =>
    intro s s₁ s' past past' log h hrun
    obtain ⟨s₂, r, log₂, hfirst, hrest, rfl⟩ := run_cons_eq_some.mp hrun
    cases hkept : keep e with
    | false =>
      -- the filtered run stays where it is
      obtain ⟨s₁', hrun', hrel⟩ := ih _ _ (hskip h hkept hfirst) hrest
      have hlog : keptRecords keep (e :: es) (r :: log₂) = keptRecords keep es log₂ := by
        simp [keptRecords, hkept]
      refine ⟨s₁', ?_, ?_⟩
      · rw [List.filter_cons_of_neg (by simp [hkept]), hlog]
        exact hrun'
      · rwa [hlog, ← List.singleton_append, ← List.append_assoc]
    | true =>
      -- the filtered run takes the same step
      obtain ⟨s₂', hfirst', hrel₂⟩ := hstep h hkept hfirst
      obtain ⟨s₁', hrun', hrel⟩ := ih _ _ hrel₂ hrest
      have hlog : keptRecords keep (e :: es) (r :: log₂) = r :: keptRecords keep es log₂ := by
        simp [keptRecords, hkept]
      refine ⟨s₁', ?_, ?_⟩
      · rw [List.filter_cons_of_pos hkept, hlog]
        exact run_cons_eq_some.mpr ⟨_, _, _, hfirst', hrun', rfl⟩
      · rw [hlog]
        simpa using hrel

/-- A run keeps the invariant. -/
theorem inv_run {cfg : Config} {ttl : ℚ} :
    ∀ {es : List Event} {s s' : Server} {past log : List Record}, Inv ttl s past →
      run cfg s es = some (s', log) → Inv ttl s' (past ++ log) := by
  intro es
  induction es with
  | nil =>
    intro s s' past log h hrun
    simp only [run, Option.some.injEq, Prod.mk.injEq] at hrun
    obtain ⟨rfl, rfl⟩ := hrun
    simpa using h
  | cons e es ih =>
    intro s s' past log h hrun
    obtain ⟨s₁, r, log', hstep, hrest, rfl⟩ := run_cons_eq_some.mp hrun
    have := ih (inv_step h hstep) hrest
    rwa [List.append_assoc, List.singleton_append] at this

/-! ### The decision on a `complete` callback -/

/-- A delivery of the key was accepted and has not finished. -/
def Unfinished (log : List Record) (key : PyStr) : Prop :=
  ∃ d : Delivery, d.key = key ∧ Accepted log d ∧ ¬ Finished log d

/-- A delivery of the key finished successfully less than a TTL before `now`. -/
def DeliveredWithin (ttl : ℚ) (log : List Record) (key : PyStr) (now : ℚ) : Prop :=
  ∃ (d : Delivery) (t : ℚ), d.key = key ∧ .finished d true t ∈ log ∧ now < t + ttl

/-- A complete request reaches the state of its key. -/
theorem progressCallback_of_isComplete {cfg : Config} (hclient : cfg.hasSignalClient = true)
    {request : Request} {p : CallbackPayload} (h : IsComplete cfg request p) (app : AppState)
    (now : ℚ) : progressCallback cfg app request now = .ok (answerComplete app p now) := by
  obtain ⟨htoken, htype, body, hbody, hparse⟩ := h
  simp [progressCallback, htoken, Option.mem_def.mp hbody, hparse, bind, Except.bind, htype,
    hclient, pure, Except.pure]

/-- The invariant decides the dedup check. -/
theorem Inv.duplicate_iff {ttl : ℚ} {s : Server} {log : List Record} (h : Inv ttl s log)
    {now : ℚ} (hnow : s.clock ≤ now) (key : PyStr) :
    ((s.app.dedup.isCompleted key now).1 = true ∨ key ∈ s.app.inFlight) ↔
      Unfinished log key ∨ DeliveredWithin ttl log key now := by
  rw [or_comm]
  -- in flight is unfinished, and marked is delivered within the time to live
  refine or_congr ?_ ?_
  · rw [h.inFlight_iff]
    constructor
    · rintro ⟨d, hd, hkey⟩
      obtain ⟨hacc, hfin⟩ := (h.running_iff d).mp hd
      exact ⟨d, hkey, hacc, hfin⟩
    · rintro ⟨d, hkey, hacc, hfin⟩
      exact ⟨d, (h.running_iff d).mpr ⟨hacc, hfin⟩, hkey⟩
  · rw [h.tracks.isCompleted_fst hnow, h.ttl_eq]
    constructor
    · rintro ⟨m, hm, hlt⟩
      obtain ⟨d, hkey, hmem⟩ := h.mark_mem key m hm
      exact ⟨d, m, hkey, hmem, hlt⟩
    · rintro ⟨d, t, rfl, hmem, hlt⟩
      obtain ⟨m, hm, hle⟩ := h.mark_le d t hmem
      refine ⟨m, hm, ?_⟩
      linarith

/-- In every run, a `complete` callback is ignored exactly when a delivery of its key has
not finished or one finished successfully within the TTL. Otherwise it starts one delivery.
The running deliveries have distinct keys, and a key all of whose deliveries failed is
accepted. -/
theorem complete_ignored_iff {cfg : Config} (hclient : cfg.hasSignalClient = true)
    {ttl sweepInterval t₀ : ℚ} {es : List Event} {s : Server} {log : List Record}
    (hrun : run cfg (.create ttl sweepInterval t₀) es = some (s, log)) {request : Request}
    {p : CallbackPayload} (hreq : IsComplete cfg request p) {id : Nat} {now : ℚ}
    (hid : s.nextId ≤ id) (hnow : s.clock ≤ now) :
    ∃ s' answer, step cfg s (.request id request now) = some (s', .answered id (.ok answer)) ∧
      (answer = .duplicate p ∧ s'.running = s.running ∨
        answer = .accepted p ∧ s'.running = s.running ++ [⟨id, p⟩]) ∧
      (answer = .duplicate p ↔
        Unfinished log p.messageKey ∨ DeliveredWithin ttl log p.messageKey now) ∧
      (s'.running.map Delivery.key).Nodup ∧
      ((∀ d, d.key = p.messageKey → Accepted log d →
          Finished log d ∧ ∀ t, .finished d true t ∉ log) → answer = .accepted p) := by
  have hinv : Inv ttl s log := by
    simpa using inv_run (inv_create ttl sweepInterval t₀) hrun
  have hstep := step_complete hid hnow
    (progressCallback_of_isComplete hclient hreq s.app now)
  -- The step keeps the invariant, and with it one delivery for each key.
  have hnext := inv_step hinv hstep
  -- What the state knows of the key is what the log says of it.
  have hdup := hinv.duplicate_iff hnow p.messageKey
  refine ⟨_, _, hstep, ?_, ?_, hnext.keys_nodup, ?_⟩
  · rcases answerComplete_cases s.app p now with ⟨-, hans⟩ | ⟨-, -, hans⟩
    · left
      simp [hans, startedBy]
    · right
      simp [hans, startedBy]
  · rw [← hdup]
    rcases answerComplete_cases s.app p now with ⟨h, hans⟩ | ⟨hc, hf, hans⟩
    · simp [hans, h]
    · simp [hans, hc, hf]
  · intro hfailed
    rcases answerComplete_cases s.app p now with ⟨h, hans⟩ | ⟨-, -, hans⟩
    · -- a duplicate has a delivery that runs or one that was delivered, and there is neither
      exfalso
      rcases hdup.mp h with ⟨d, hkey, hacc, hfin⟩ | ⟨d, t, hkey, hmem, -⟩
      · exact hfin (hfailed d hkey hacc).1
      · exact (hfailed d hkey (hinv.accepted_of_finished d ⟨_, _, hmem⟩)).2 t hmem
    · rw [hans]

/-! A worker that repeats a reply: the first delivery raised, so the key is free again. -/

/-- A worker token and a signal client. -/
def exampleConfig : Config := ⟨lit "secret", true⟩

/-- A `complete` payload for a direct chat. -/
def examplePayload (userId messageKey : String) : CallbackPayload where
  type := .complete
  userId := lit userId
  messageKey := lit messageKey
  text := some (lit "hi")

/-- The request of a payload. -/
def exampleRequest (userId messageKey : String) : Request where
  token := some (lit "secret")
  body := some (.obj [(lit "type", .str (lit "complete")), (lit "user_id", .str (lit userId)),
    (lit "message_key", .str (lit messageKey)), (lit "text", .str (lit "hi"))])

/-- A retry after a delivery that raised is accepted. -/
theorem complete_ignored_iff_retry :
    ∃ s log, run exampleConfig (.create dedupTtlMs 60000 0)
        [.request 0 (exampleRequest "alice" "17") 1,
          .finish ⟨0, examplePayload "alice" "17"⟩ .raised 2] = some (s, log) ∧
      ∃ s' answer, step exampleConfig s (.request 1 (exampleRequest "alice" "17") 3)
          = some (s', .answered 1 (.ok answer)) ∧
        (answer = .duplicate (examplePayload "alice" "17") ∧ s'.running = s.running ∨
          answer = .accepted (examplePayload "alice" "17") ∧
            s'.running = s.running ++ [⟨1, examplePayload "alice" "17"⟩]) ∧
        (answer = .duplicate (examplePayload "alice" "17") ↔
          Unfinished log (lit "17") ∨ DeliveredWithin dedupTtlMs log (lit "17") 3) ∧
        (s'.running.map Delivery.key).Nodup ∧
        ((∀ d, d.key = lit "17" → Accepted log d →
            Finished log d ∧ ∀ t, .finished d true t ∉ log) →
          answer = .accepted (examplePayload "alice" "17")) := by
  obtain ⟨⟨s, log⟩, hrun, hlast⟩ := (Option.any_eq_true _ _).mp
    (show (run exampleConfig (.create dedupTtlMs 60000 0)
        [.request 0 (exampleRequest "alice" "17") 1,
          .finish ⟨0, examplePayload "alice" "17"⟩ .raised 2]).any
          (fun r => decide (r.1.nextId ≤ 1 ∧ r.1.clock ≤ 3)) = true by decide +kernel)
  obtain ⟨hid, hnow⟩ := of_decide_eq_true hlast
  exact ⟨s, log, hrun, complete_ignored_iff rfl hrun ⟨rfl, rfl, _, rfl, rfl⟩ hid hnow⟩

end SignalGateway.Proofs.CallbackServer
