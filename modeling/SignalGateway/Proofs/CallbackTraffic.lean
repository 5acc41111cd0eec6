import SignalGateway.Proofs.CallbackServer

/-!
# `SignalGateway.Proofs.CallbackTraffic`: traffic that replies do not notice

A request with a wrong token, an unrecognized payload or another type than `complete` is
answered without the dedup state. `SameReplies` connects a run with a run in which such
requests are missing. `sameReplies_step` keeps it, so the records of all other events are the
same in both runs (`deleted_traffic`).

`Deletable` names the requests: a wrong or missing token, a body that is no payload, and the
payloads of type `status`, `progress` or `error`. Some of these do schedule a task, for example
one that posts a progress message. What they never do is touch the dedup state or a delivery
that marks its key (`not_isComplete_of_deletable`).

The second part of `deleted_traffic` is about the two kinds that are refused: they schedule
nothing at all.
-/

set_option autoImplicit false

namespace SignalGateway.Proofs.CallbackServer

open SignalGateway.Dispatch SignalGateway.CallbackServer

/-- The request does not carry the worker token. -/
def BadToken (cfg : Config) (request : Request) : Prop := request.token ≠ some cfg.engineApiKey

/-- The request carries no payload: its body is no JSON, or `parse_callback_payload` does not
return one. -/
def Unrecognized (request : Request) : Prop :=
  ∀ body ∈ request.body, ∀ p, parseCallbackPayload body ≠ .ok (some p)

/-- The payload of the request is of the type `status`, `progress` or `error`. -/
def NotComplete (request : Request) : Prop :=
  ∃ body ∈ request.body, ∃ p, parseCallbackPayload body = .ok (some p) ∧ p.type ≠ .complete

/-- A request that may be deleted. -/
def Deletable (cfg : Config) : Event → Prop
  | .request _ request _ => BadToken cfg request ∨ Unrecognized request ∨ NotComplete request
  | .finish _ _ _ => False

/-- An answer that schedules a delivery in the background. -/
def Schedules (record : Record) : Prop :=
  ∃ id p, record = .answered id (.ok (.accepted p)) ∨ record = .answered id (.ok (.dispatched p))

/-- Two servers between which no event but a deleted one makes a difference. -/
structure SameReplies (s s' : Server) : Prop where
  app_eq : s'.app = s.app
  running_eq : s'.running = s.running
  nextId_le : s'.nextId ≤ s.nextId
  clock_le : s'.clock ≤ s.clock

section
variable {cfg : Config} {s s' s₁ : Server} {e : Event} {r : Record}

/-- A request that can be deleted is not complete. -/
theorem not_isComplete_of_deletable {id : Nat} {request : Request} {now : ℚ}
    (h : Deletable cfg (.request id request now)) (p : CallbackPayload) :
    ¬ IsComplete cfg request p := by
  rintro ⟨htoken, htype, body, hbody, hparse⟩
  rcases h with hbad | hunrecognized | ⟨body', hbody', p', hparse', htype'⟩
  · exact hbad htoken
  · exact hunrecognized body hbody p hparse
  · obtain rfl := Option.mem_unique hbody hbody'
    rw [hparse] at hparse'
    cases hparse'
    exact htype' htype

/-- A deleted request leaves the replies as they are. -/
theorem sameReplies_skip (h : SameReplies s s') (hdel : Deletable cfg e)
    (hstep : step cfg s e = some (s₁, r)) : SameReplies s₁ s' := by
  rcases step_cases hstep with ⟨id, request, now, answer, rfl, hid, hnow, -, -, rfl, rfl⟩ |
    ⟨id, request, now, p, rfl, hid, hnow, hcomplete, -, rfl, rfl⟩ | ⟨d, outcome, now, rfl, -⟩
  · exact ⟨h.app_eq, h.running_eq, (h.nextId_le.trans hid).trans (Nat.le_succ _),
      h.clock_le.trans hnow⟩
  · exact absurd hcomplete (not_isComplete_of_deletable hdel p)
  · exact hdel.elim

/-- Any other event has the same record in both runs. -/
theorem sameReplies_step (h : SameReplies s s') (hstep : step cfg s e = some (s₁, r)) :
    ∃ s₁', step cfg s' e = some (s₁', r) ∧ SameReplies s₁ s₁' := by
  rcases step_cases hstep with ⟨id, request, now, answer, rfl, hid, hnow, hne, heq, rfl, rfl⟩ |
    ⟨id, request, now, p, rfl, hid, hnow, -, heq, rfl, rfl⟩ |
    ⟨d, outcome, now, rfl, hd, hnow, rfl, rfl⟩
  · exact ⟨_, step_answered (h.nextId_le.trans hid) (h.clock_le.trans hnow) hne (heq s'.app),
      h.app_eq, h.running_eq, le_rfl, le_rfl⟩
  · have hstep' := step_complete (h.nextId_le.trans hid) (h.clock_le.trans hnow) (heq s'.app)
    rw [h.app_eq, h.running_eq] at hstep'
    exact ⟨_, hstep', rfl, rfl, le_rfl, le_rfl⟩
  · have hstep' : step cfg s' (.finish d outcome now) = _ :=
      step_finish (h.running_eq ▸ hd) (h.clock_le.trans hnow)
    rw [h.app_eq, h.running_eq] at hstep'
    exact ⟨_, hstep', rfl, rfl, h.nextId_le, le_rfl⟩

/-- A rejected request is answered without a delivery. -/
theorem progressCallback_rejected {request : Request}
    (h : BadToken cfg request ∨ Unrecognized request) (now : ℚ) :
    ∃ answer : Except PyError Answer,
      (∀ p, answer ≠ .ok (.accepted p) ∧ answer ≠ .ok (.dispatched p)) ∧
      ∀ app, progressCallback cfg app request now = answer.map (·, app) := by
  unfold progressCallback
  -- in the order of the handler: the token, the body, the payload
  by_cases htoken : request.token = some cfg.engineApiKey
  · have hunrecognized := h.resolve_left (not_not.mpr htoken)
    simp only [htoken, ne_eq, not_true_eq_false, if_false]
    cases hbody : request.body with
    | none => exact ⟨.ok .malformedJson, by simp, fun _ => rfl⟩
    | some body =>
      cases hparse : parseCallbackPayload body with
      | error e =>
        simp only [hparse]
        exact ⟨.error e, by simp, fun _ => rfl⟩
      | ok payload =>
        cases payload with
        | some p => exact absurd hparse (hunrecognized body hbody p)
        | none =>
          simp only [hparse]
          exact ⟨.ok .unrecognized, by simp, fun _ => rfl⟩
  · simp only [htoken, ne_eq, not_false_eq_true, if_true]
    exact ⟨.ok .badToken, by simp, fun _ => rfl⟩

/-- A rejected request schedules no delivery. -/
theorem not_schedules {id : Nat} {request : Request} {now : ℚ}
    (h : BadToken cfg request ∨ Unrecognized request)
    (hstep : step cfg s (.request id request now) = some (s₁, r)) : ¬ Schedules r := by
  obtain ⟨answer, hne, heq⟩ := progressCallback_rejected h now
  by_cases hguard : s.nextId ≤ id ∧ s.clock ≤ now
  · rw [step_answered hguard.1 hguard.2 (fun p => (hne p).1) (heq s.app)] at hstep
    obtain ⟨-, rfl⟩ := Prod.mk.inj (Option.some.inj hstep)
    rintro ⟨id', p, heq | heq⟩
    · exact (hne p).1 (Record.answered.inj heq).2
    · exact (hne p).2 (Record.answered.inj heq).2
  · rw [step, if_neg hguard] at hstep
    cases hstep

/-- The records of a run are those of its steps. -/
theorem step_of_mem_zip : ∀ {es : List Event} {s s₁ : Server} {log : List Record},
    run cfg s es = some (s₁, log) → ∀ entry ∈ es.zip log,
      ∃ s₂ s₃, step cfg s₂ entry.1 = some (s₃, entry.2) := by
  intro es
  induction es with
  | nil => exact fun _ entry hentry => absurd hentry List.not_mem_nil
  | cons e es ih =>
    intro s s₁ log hrun entry hentry
    obtain ⟨s₂, r, log₂, hstep, hrest, rfl⟩ := run_cons_eq_some.mp hrun
    rw [List.zip_cons_cons] at hentry
    rcases List.mem_cons.mp hentry with rfl | hentry
    · exact ⟨s, s₂, hstep⟩
    · exact ih hrest entry hentry

/-- The run without the deleted requests is possible. -/
theorem sameReplies_run {keep : Event → Bool} (hkeep : ∀ e, keep e = false → Deletable cfg e)
    {es : List Event} {log : List Record} (h : SameReplies s s')
    (hrun : run cfg s es = some (s₁, log)) :
    ∃ s₁', run cfg s' (es.filter keep) = some (s₁', keptRecords keep es log) ∧
      SameReplies s₁ s₁' :=
  exists_run_filter (R := fun s _ s' _ => SameReplies s s') keep
    (fun h hdrop hstep => sameReplies_skip h (hkeep _ hdrop) hstep)
    (fun h _ hstep => sameReplies_step h hstep) [] [] h hrun

end

/-- Deleting requests with a wrong token, with an unrecognized payload, or of another type than
`complete` leaves the record of every other event as it is, the decisions on `complete`
callbacks included. The requests with a wrong token or an unrecognized payload schedule no
delivery. -/
theorem deleted_traffic {cfg : Config} {keep : Event → Bool}
    (hkeep : ∀ e, keep e = false → Deletable cfg e) {ttl sweepInterval t₀ : ℚ} {es : List Event}
    {s : Server} {log : List Record}
    (hrun : run cfg (.create ttl sweepInterval t₀) es = some (s, log)) :
    (∃ s', run cfg (.create ttl sweepInterval t₀) (es.filter keep)
        = some (s', keptRecords keep es log)) ∧
      ∀ entry ∈ es.zip log, ∀ id request now, entry.1 = .request id request now →
        BadToken cfg request ∨ Unrecognized request → ¬ Schedules entry.2 := by
  constructor
  · obtain ⟨s', hrun', -⟩ := sameReplies_run hkeep ⟨rfl, rfl, le_rfl, le_rfl⟩ hrun
    exact ⟨s', hrun'⟩
  · intro entry hentry id request now heq hrejected
    obtain ⟨s₂, s₃, hstep⟩ := step_of_mem_zip hrun entry hentry
    rw [heq] at hstep
    exact not_schedules hrejected hstep

/-- The events without the requests that lack the worker token. -/
def keepTrusted : Event → Bool
  | .request _ request _ => request.token == some exampleConfig.engineApiKey
  | .finish _ _ _ => true

/-- A request without a token between two replies. -/
def mixedTraffic : List Event :=
  [.request 0 (exampleRequest "alice" "17") 1,
    .request 1 { exampleRequest "alice" "17" with token := none } 2,
    .request 2 (exampleRequest "alice" "17") 3]

/-- Untrusted requests between two replies change nothing. -/
theorem deleted_traffic_mixedTraffic :
    ∃ s log, run exampleConfig (.create dedupTtlMs 60000 0) mixedTraffic = some (s, log) ∧
      (∃ s', run exampleConfig (.create dedupTtlMs 60000 0) (mixedTraffic.filter keepTrusted)
          = some (s', keptRecords keepTrusted mixedTraffic log)) ∧
      ∀ entry ∈ mixedTraffic.zip log, ∀ id request now, entry.1 = .request id request now →
        BadToken exampleConfig request ∨ Unrecognized request → ¬ Schedules entry.2 := by
  have hkeep : ∀ e, keepTrusted e = false → Deletable exampleConfig e := by
    intro e he
    cases e with
    | request id request now => exact .inl (by simpa [keepTrusted, BadToken] using he)
    | finish d outcome now => cases he
  obtain ⟨⟨s, log⟩, hrun⟩ := Option.isSome_iff_exists.mp
    (show (run exampleConfig (.create dedupTtlMs 60000 0) mixedTraffic).isSome = true by
      decide +kernel)
  exact ⟨s, log, hrun, deleted_traffic hkeep hrun⟩

end SignalGateway.Proofs.CallbackServer
