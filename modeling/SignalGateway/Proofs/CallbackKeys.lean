import SignalGateway.Proofs.CallbackServer

/-!
# `SignalGateway.Proofs.CallbackKeys`: replies with different keys do not meet

The dedup state is kept per `message_key`, so what happened to one key has no influence on
another. `Simulates key` connects a run with the same run without the events of `key`.
`simulates_step` keeps the connection, and `answer_independent` concludes: the answer to a
`complete` callback is the same in both.

The recipient plays no part. Two users whose messages carry the same timestamp get the same
key, and then one reply suppresses the other (`same_key_ignored`).

Both runs have the same other events, and `Simulates` compares what they have recorded: the
deliveries of the other keys have finished in both or in neither, and the marks of the other keys
agree. `Simulates.duplicate_iff` reads the decision of the dedup check off that. A cache that has
swept at different times still gives the same answers, because only keys whose time is over are
swept (`Proofs.Dedup`).
-/

set_option autoImplicit false

namespace SignalGateway.Proofs.CallbackServer

open SignalGateway.Dedup SignalGateway.Dispatch SignalGateway.CallbackServer
open SignalGateway.Proofs.Dedup

/-- The key of a request with a `complete` payload. -/
def requestKey (request : Request) : Option PyStr :=
  request.body.bind fun body =>
    match parseCallbackPayload body with
    | .ok (some p) => if p.type = .complete then some p.messageKey else none
    | _ => none

/-- The key an event is about: that of its `complete` payload, or of its delivery. -/
def eventKey : Event → Option PyStr
  | .request _ request _ => requestKey request
  | .finish d _ _ => some d.key

/-- A complete request names the key of its payload. -/
theorem requestKey_of_isComplete {cfg : Config} {request : Request} {p : CallbackPayload}
    (h : IsComplete cfg request p) : requestKey request = some p.messageKey := by
  obtain ⟨-, htype, body, hbody, hparse⟩ := h
  simp [requestKey, Option.mem_def.mp hbody, hparse, htype]

/-- An accepted payload is the one that was decided on. -/
theorem payload_of_accepted {app : AppState} {p q : CallbackPayload} {now : ℚ}
    (h : (answerComplete app p now).1 = .accepted q) : q = p := by
  rcases answerComplete_cases app p now with ⟨-, hans⟩ | ⟨-, -, hans⟩
  · rw [hans] at h
    cases h
  · rw [hans] at h
    cases h
    rfl

/-- The records of a run and of the run without the events of `key`. -/
structure Simulates (key : PyStr) (ttl : ℚ) (s : Server) (log : List Record) (s' : Server)
    (log' : List Record) : Prop where
  inv : Inv ttl s log
  inv' : Inv ttl s' log'
  nextId_le : s'.nextId ≤ s.nextId
  clock_le : s'.clock ≤ s.clock
  accepted_iff : ∀ d : Delivery, d.key ≠ key → (Accepted log d ↔ Accepted log' d)
  finished_iff : ∀ d : Delivery, d.key ≠ key → ∀ ok t,
    (.finished d ok t ∈ log ↔ .finished d ok t ∈ log')

section
variable {cfg : Config} {key : PyStr} {ttl : ℚ} {s s' : Server} {log log' : List Record}

/-- Deliveries of other keys finish in both runs. -/
theorem Simulates.finished (h : Simulates key ttl s log s' log') {d : Delivery}
    (hd : d.key ≠ key) : Finished log d ↔ Finished log' d := by
  simp only [Finished, h.finished_iff d hd]

/-- The two runs decide alike on every other key. -/
theorem Simulates.duplicate_iff (h : Simulates key ttl s log s' log') {now : ℚ}
    (hnow : s.clock ≤ now) {k : PyStr} (hk : k ≠ key) :
    ((s.app.dedup.isCompleted k now).1 = true ∨ k ∈ s.app.inFlight) ↔
      ((s'.app.dedup.isCompleted k now).1 = true ∨ k ∈ s'.app.inFlight) := by
  rw [h.inv.duplicate_iff hnow, h.inv'.duplicate_iff (h.clock_le.trans hnow)]
  refine or_congr ?_ ?_
  · refine exists_congr fun d => and_congr_right fun hd => ?_
    have hne : d.key ≠ key := hd ▸ hk
    rw [h.accepted_iff d hne, h.finished hne]
  · refine exists₂_congr fun d t => and_congr_right fun hd => ?_
    have hne : d.key ≠ key := hd ▸ hk
    rw [h.finished_iff d hne]

/-- Requests with other keys are answered alike. -/
theorem Simulates.answer_eq (h : Simulates key ttl s log s' log') {now : ℚ}
    (hnow : s.clock ≤ now) {p : CallbackPayload} (hp : p.messageKey ≠ key) :
    (answerComplete s.app p now).1 = (answerComplete s'.app p now).1 := by
  have hdup := h.duplicate_iff hnow hp
  rcases answerComplete_cases s.app p now with ⟨h1, hans⟩ | ⟨hc, hf, hans⟩ <;>
    rcases answerComplete_cases s'.app p now with ⟨h1', hans'⟩ | ⟨hc', hf', hans'⟩ <;>
    rw [hans, hans']
  · exact absurd (hdup.mp h1) (by simp [hc', hf'])
  · exact absurd (hdup.mpr h1') (by simp [hc, hf])

/-- An event of the key, in the first run only. -/
theorem simulates_skip (h : Simulates key ttl s log s' log') {e : Event} {r : Record}
    {s₁ : Server} (hkey : eventKey e = some key) (hstep : step cfg s e = some (s₁, r)) :
    Simulates key ttl s₁ (log ++ [r]) s' log' := by
  have hinv := inv_step h.inv hstep
  -- a record of the key does not show in what the relation says of the other keys
  have hquiet : ∀ {s₂ : Server}, Inv ttl s₂ (log ++ [r]) → s.nextId ≤ s₂.nextId →
      s.clock ≤ s₂.clock →
      (∀ d : Delivery, d.key ≠ key → .answered d.id (.ok (.accepted d.payload)) ≠ r) →
      (∀ d : Delivery, d.key ≠ key → ∀ ok t, .finished d ok t ≠ r) →
      Simulates key ttl s₂ (log ++ [r]) s' log' := by
    intro s₂ hinv₂ hid hclock hacc hfin
    refine ⟨hinv₂, h.inv', h.nextId_le.trans hid, h.clock_le.trans hclock, ?_, ?_⟩
    · intro d hd
      rw [← h.accepted_iff d hd, Accepted, List.mem_append, List.mem_singleton]
      exact or_iff_left (hacc d hd)
    · intro d hd ok t
      rw [← h.finished_iff d hd, List.mem_append, List.mem_singleton]
      exact or_iff_left (hfin d hd ok t)
  rcases step_cases hstep with ⟨id, request, now, answer, -, hid, hnow, hne, -, rfl, rfl⟩ |
    ⟨id, request, now, p, rfl, hid, hnow, hp, -, rfl, rfl⟩ |
    ⟨d, outcome, now, rfl, hd, hnow, rfl, rfl⟩
  · refine hquiet hinv (Nat.le_succ_of_le hid) hnow ?_ (by simp)
    intro d _ heq
    simp only [Record.answered.injEq] at heq
    exact hne d.payload heq.2.symm
  · refine hquiet hinv (Nat.le_succ_of_le hid) hnow ?_ (by simp)
    intro d hd heq
    simp only [Record.answered.injEq, Except.ok.injEq] at heq
    have hdp := payload_of_accepted heq.2.symm
    have hpk : requestKey request = some key := hkey
    rw [requestKey_of_isComplete hp, Option.some.injEq] at hpk
    exact hd (by rw [Delivery.key, hdp, hpk])
  · refine hquiet hinv le_rfl hnow (by simp) ?_
    intro e he ok t heq
    simp only [Record.finished.injEq] at heq
    simp only [eventKey, Option.some.injEq] at hkey
    exact he (by rw [heq.1, hkey])

/-- Any other event, in both runs. -/
theorem simulates_step (h : Simulates key ttl s log s' log') {e : Event} {r : Record}
    {s₁ : Server} (hkey : eventKey e ≠ some key) (hstep : step cfg s e = some (s₁, r)) :
    ∃ s₁', step cfg s' e = some (s₁', r) ∧
      Simulates key ttl s₁ (log ++ [r]) s₁' (log' ++ [r]) := by
  -- both servers write the same record, so the logs stay equal on the other keys
  have hboth : ∀ {s₁' : Server}, step cfg s' e = some (s₁', r) →
      s₁'.nextId ≤ s₁.nextId → s₁'.clock ≤ s₁.clock →
      Simulates key ttl s₁ (log ++ [r]) s₁' (log' ++ [r]) := by
    intro s₁' hstep' hid hclock
    refine ⟨inv_step h.inv hstep, inv_step h.inv' hstep', hid, hclock, ?_, ?_⟩
    · intro d hd
      have := h.accepted_iff d hd
      simp only [Accepted, List.mem_append] at this ⊢
      rw [this]
    · intro d hd ok t
      rw [List.mem_append, List.mem_append, h.finished_iff d hd]
  rcases step_cases hstep with
    ⟨id, request, now, answer, rfl, hid, hnow, hne, hall, rfl, rfl⟩ |
    ⟨id, request, now, p, rfl, hid, hnow, hp, hall, rfl, rfl⟩ |
    ⟨d, outcome, now, rfl, hd, hnow, rfl, rfl⟩
  · have hstep' := step_answered (h.nextId_le.trans hid) (h.clock_le.trans hnow) hne
      (hall s'.app)
    exact ⟨_, hstep', hboth hstep' le_rfl le_rfl⟩
  · have hpk : p.messageKey ≠ key := by
      intro heq
      refine hkey ?_
      rw [← heq]
      exact requestKey_of_isComplete hp
    have hstep' := step_complete (h.nextId_le.trans hid) (h.clock_le.trans hnow) (hall s'.app)
    rw [h.answer_eq hnow hpk]
    rw [h.answer_eq hnow hpk] at hboth
    exact ⟨_, hstep', hboth hstep' le_rfl le_rfl⟩
  · have hdk : d.key ≠ key := fun heq => hkey (by rw [← heq]; rfl)
    -- a delivery of another key runs on both servers
    have hd' : d ∈ s'.running := by
      rw [h.inv'.running_iff, ← h.accepted_iff d hdk, ← h.finished hdk]
      exact (h.inv.running_iff d).mp hd
    have hstep' : step cfg s' (.finish d outcome now) = _ :=
      step_finish hd' (h.clock_le.trans hnow)
    exact ⟨_, hstep', hboth hstep' h.nextId_le le_rfl⟩

/-- The run without the events of `key` is possible. -/
theorem simulates_run {es : List Event} {s₁ : Server} {new : List Record}
    (h : Simulates key ttl s log s' log') (hrun : run cfg s es = some (s₁, new)) :
    ∃ s₁' new', run cfg s' (es.filter fun e => eventKey e ≠ some key) = some (s₁', new') ∧
      Simulates key ttl s₁ (log ++ new) s₁' (log' ++ new') := by
  obtain ⟨s₁', hrun', hsim⟩ := exists_run_filter (R := Simulates key ttl)
    (fun e => eventKey e ≠ some key)
    (fun h hkey hstep => simulates_skip h (by simpa using hkey) hstep)
    (fun h hkey hstep => simulates_step h (by simpa using hkey) hstep) log log' h hrun
  exact ⟨s₁', _, hrun', hsim⟩

end

/-- Replies with different keys never suppress each other: in every run, the answer to a
`complete` callback `q` stays the same when all events about the key of another reply `p`
are deleted. -/
theorem answer_independent {cfg : Config} (hclient : cfg.hasSignalClient = true)
    {ttl sweepInterval t₀ : ℚ} {es : List Event} {s : Server} {log : List Record}
    (hrun : run cfg (.create ttl sweepInterval t₀) es = some (s, log))
    {request : Request} {p q : CallbackPayload} (hreq : IsComplete cfg request q)
    (hkeys : p.messageKey ≠ q.messageKey) {id : Nat} {now : ℚ} (hid : s.nextId ≤ id)
    (hnow : s.clock ≤ now) :
    ∃ s' log' s₁ s₁' answer,
      run cfg (.create ttl sweepInterval t₀)
        (es.filter fun e => eventKey e ≠ some p.messageKey) = some (s', log') ∧
      step cfg s (.request id request now) = some (s₁, .answered id (.ok answer)) ∧
      step cfg s' (.request id request now) = some (s₁', .answered id (.ok answer)) := by
  have hinv := inv_create ttl sweepInterval t₀
  have hstart : Simulates p.messageKey ttl (.create ttl sweepInterval t₀) []
      (.create ttl sweepInterval t₀) [] :=
    ⟨hinv, hinv, le_rfl, le_rfl, fun _ _ => Iff.rfl, fun _ _ _ _ => Iff.rfl⟩
  obtain ⟨s', log', hrun', hsim⟩ := simulates_run hstart hrun
  have heq := progressCallback_of_isComplete hclient hreq
  have hstep := step_complete hid hnow (heq s.app now)
  have hstep' := step_complete (hsim.nextId_le.trans hid) (hsim.clock_le.trans hnow)
    (heq s'.app now)
  -- the answer only depends on what the logs say of the key of `q`
  rw [hsim.answer_eq hnow hkeys.symm] at hstep
  exact ⟨s', log', _, _, _, hrun', hstep, hstep'⟩

/-- Two replies to one user, the first still being delivered. -/
theorem answer_independent_two_messages :
    ∃ s log, run exampleConfig (.create dedupTtlMs 60000 0)
        [.request 0 (exampleRequest "alice" "17") 1] = some (s, log) ∧
      ∃ s' log' s₁ s₁' answer,
        run exampleConfig (.create dedupTtlMs 60000 0)
          ([.request 0 (exampleRequest "alice" "17") 1].filter fun e =>
            eventKey e ≠ some (examplePayload "alice" "17").messageKey) = some (s', log') ∧
        step exampleConfig s (.request 1 (exampleRequest "alice" "18") 2)
          = some (s₁, .answered 1 (.ok answer)) ∧
        step exampleConfig s' (.request 1 (exampleRequest "alice" "18") 2)
          = some (s₁', .answered 1 (.ok answer)) := by
  obtain ⟨⟨s, log⟩, hrun, hlast⟩ := (Option.any_eq_true _ _).mp
    (show (run exampleConfig (.create dedupTtlMs 60000 0)
        [.request 0 (exampleRequest "alice" "17") 1]).any
          (fun r => decide (r.1.nextId ≤ 1 ∧ r.1.clock ≤ 2)) = true by decide +kernel)
  obtain ⟨hid, hnow⟩ := of_decide_eq_true hlast
  exact ⟨s, log, hrun, answer_independent rfl hrun (q := examplePayload "alice" "18")
    ⟨rfl, rfl, _, rfl, rfl⟩ (by decide) hid hnow⟩

/-- The answer in a record. -/
def answerOf : Record → Option Answer
  | .answered _ (.ok answer) => some answer
  | _ => none

/-- Two users whose messages carry the same timestamp: the reply to the second is ignored
while the first is being delivered. -/
theorem same_key_ignored :
    recipient (examplePayload "alice" "17") ≠ recipient (examplePayload "bob" "17") ∧
      (run exampleConfig (.create dedupTtlMs 60000 0)
        [.request 0 (exampleRequest "alice" "17") 1,
          .request 1 (exampleRequest "bob" "17") 2]).map (fun r => r.2.map answerOf)
        = some [some (.accepted (examplePayload "alice" "17")),
          some (.duplicate (examplePayload "bob" "17"))] := by
  refine ⟨by decide, ?_⟩
  decide +kernel

end SignalGateway.Proofs.CallbackServer
