import SignalGateway.Proofs.RateLimitHints

/-!
# `SignalGateway.Proofs.RateLimitErrors`: which rate limits reach the scheduler

`rpcResult_cases` says what `_rpc` makes of a response with a rate limit: it raises the limit
with the hint, or the catch-all `except` swallows it. `runs_sendAttempts` says what follows a
POST in a run of a batch. `rateLimit_reaches_scheduler` joins them: every rate limit is fed
back exactly if every one has a hint that can be read (`Extractable`).

`Extractable` is about the error object alone: its hints can be read. `usableHint` is the hint
that is fed back then. `extract_iff` is where the functions of `_extract_retry_after_seconds` are
taken apart, with the lemmas of `SignalGateway.Proofs.RateLimitHints` for the hints.

`BatchRun` is the shape of a batch: a POST, its answer, and what follows it. `Followed` is asked
of every POST with a rate limit, whether the batch ends with it or tries again.
-/

set_option autoImplicit false

namespace SignalGateway.Proofs.Rpc

open SignalGateway.Rpc Prog

variable {repr : Json → Except PyError PyStr} {listGt : List Json → List Json → Except PyError Bool}

/-! ### The errors -/

/-- The message of the error has a text, and the hint of its structured field can be read. -/
structure Extractable (repr : Json → Except PyError PyStr) (err : Json) : Prop where
  message : ∃ text, errorMessage repr err = .ok text
  walkable : ∀ items, err = .obj items → Walkable items
  convertible : ∀ items hint hints, err = .obj items → hintsOf items = hint :: hints →
    ConvertibleMax hint hints

/-- The hint of an error, or `None` where none can be extracted. -/
def usableHint (repr : Json → Except PyError PyStr)
    (listGt : List Json → List Json → Except PyError Bool) (err : Json) : Option PyFloat :=
  match extractRetryAfterSeconds repr listGt err with
  | .ok hint => hint
  | .error _ => none

/-- The response carries an error that is recognised as a rate limit. -/
def RateLimited (repr : Json → Except PyError PyStr) (answer : Except PyError Response)
    (err : Json) : Prop :=
  ∃ status items, answer = .ok ⟨status, .ok (.obj items)⟩ ∧
    items.lookup (lit "error") = some err ∧ isSignalRateLimitError repr err = .ok true

/-- The response has a 2xx status. -/
def IsSuccess : Except PyError Response → Prop
  | .ok response => 200 ≤ response.status ∧ response.status ≤ 299
  | .error _ => False

/-- Without a structured hint, the seconds of the message are extracted. -/
theorem extract_of_no_hints {err : Json} (hmessage : ∃ text, errorMessage repr err = .ok text)
    (h : ∀ items, err = .obj items → candidates items = .ok []) :
    ∃ hint, extractRetryAfterSeconds repr listGt err = .ok hint := by
  obtain ⟨text, htext⟩ := hmessage
  have hextract : extractRetryAfterSeconds repr listGt err = messageSeconds text := by
    cases err with
    | obj items =>
      rw [extractRetryAfterSeconds, h items rfl]
      show (errorMessage repr (.obj items) >>= messageSeconds) = _
      rw [htext]
      rfl
    | _ =>
      unfold extractRetryAfterSeconds
      simp only [htext]
      rfl
  rw [hextract]
  exact messageSeconds_ok text

/-- With structured hints, the greatest is extracted. -/
theorem extract_of_hints {items : List (PyStr × Json)} {hint : Json} {hints : List Json}
    (h : candidates items = .ok (hint :: hints)) :
    (∃ x, extractRetryAfterSeconds repr listGt (.obj items) = .ok x) ↔
      ConvertibleMax hint hints := by
  have hextract : extractRetryAfterSeconds repr listGt (.obj items)
      = some <$> (Json.maxFrom listGt hint hints >>= Json.toFloat) := by
    rw [extractRetryAfterSeconds, h]
    show (Json.maxFrom listGt hint hints >>= fun top => some <$> top.toFloat) = _
    cases Json.maxFrom listGt hint hints <;> rfl
  rw [hextract, ← @maxFrom_toFloat_iff listGt hint hints]
  cases Json.maxFrom listGt hint hints >>= Json.toFloat with
  | ok x => exact iff_of_true ⟨_, rfl⟩ ⟨_, rfl⟩
  | error e => exact iff_of_false (by rintro ⟨x, ⟨⟩⟩) (by rintro ⟨x, ⟨⟩⟩)

/-- An error with a message has a hint that is extracted exactly if it can be read. -/
theorem extract_iff {err : Json} (hmessage : ∃ text, errorMessage repr err = .ok text) :
    (∃ hint, extractRetryAfterSeconds repr listGt err = .ok hint) ↔ Extractable repr err := by
  by_cases hobj : ∃ items, err = .obj items
  · -- The structured field is walked first. The message counts where it has no hint.
    obtain ⟨items, rfl⟩ := hobj
    rcases candidates_cases items with ⟨hwalk, hcandidates⟩ | ⟨hwalk, e, hcandidates⟩
    · cases hhints : hintsOf items with
      | nil =>
        rw [hhints] at hcandidates
        refine iff_of_true (extract_of_no_hints hmessage ?_) ⟨hmessage, ?_, ?_⟩
        · rintro _ ⟨⟩
          exact hcandidates
        · rintro _ ⟨⟩
          exact hwalk
        · rintro _ hint hints ⟨⟩ heq
          rw [hhints] at heq
          cases heq
      | cons hint hints =>
        rw [hhints] at hcandidates
        rw [extract_of_hints hcandidates]
        constructor
        · intro hmax
          refine ⟨hmessage, ?_, ?_⟩
          · rintro _ ⟨⟩
            exact hwalk
          · rintro _ hint' hints' ⟨⟩ heq
            rw [hhints] at heq
            cases heq
            exact hmax
        · exact fun h => h.convertible items hint hints rfl hhints
    · refine iff_of_false ?_ fun h => hwalk (h.walkable items rfl)
      rintro ⟨hint, hok⟩
      rw [extractRetryAfterSeconds, hcandidates] at hok
      cases hok
  · have hno : ∀ items, err ≠ .obj items := fun items heq => hobj ⟨items, heq⟩
    exact iff_of_true (extract_of_no_hints hmessage fun items heq => absurd heq (hno items))
      ⟨hmessage, fun items heq => absurd heq (hno items),
        fun items _ _ heq => absurd heq (hno items)⟩

/-- What is done about a rate limit. -/
theorem readData_of_rateLimit {items : List (PyStr × Json)} {err : Json}
    (herr : items.lookup (lit "error") = some err)
    (hlimit : isSignalRateLimitError repr err = .ok true) :
    readData repr listGt true (.obj items) = (do
      let errMsg ← ofPy (errorMessage repr err)
      let retryAfter ← ofPy (extractRetryAfterSeconds repr listGt err)
      throw (.rateLimit ⟨errMsg, retryAfter⟩)) := by
  have hcontains : (Json.obj items).contains (lit "error") = .ok true := by
    rw [Json.contains, herr]
    rfl
  have herrorOf : errorOf (.obj items) = .ok err := by
    rw [errorOf, Json.lookup, herr]
    rfl
  rw [readData, hcontains, herrorOf]
  show (ofPy (isSignalRateLimitError repr err) >>= _) = _
  rw [hlimit]
  cases errorMessage repr err with
  | error e => rfl
  | ok errMsg => cases extractRetryAfterSeconds repr listGt err <;> rfl

/-- The status is checked before the body is read. -/
theorem exchange_eq (status : ℤ) (data : Json) :
    exchange repr listGt true (.ok ⟨status, .ok data⟩)
      = if 200 ≤ status ∧ status ≤ 299 then readData repr listGt true data
        else .error (.other .httpError) := by
  rw [exchange]
  show (ofPy (raiseForStatus _) >>= fun _ => readData repr listGt true data) = _
  rw [raiseForStatus]
  split <;> rfl

/-- A rate limit is raised with its hint, or it is swallowed. -/
theorem rpcResult_cases {answer : Except PyError Response} {err : Json}
    (h : RateLimited repr answer err) :
    ((IsSuccess answer ∧ Extractable repr err) ∧ ∃ message,
        rpcResult repr listGt true answer = .error ⟨message, usableHint repr listGt err⟩) ∨
      ¬ (IsSuccess answer ∧ Extractable repr err) ∧
        rpcResult repr listGt true answer = .ok .null := by
  obtain ⟨status, items, rfl, herr, hlimit⟩ := h
  by_cases hstatus : 200 ≤ status ∧ status ≤ 299
  · rw [rpcResult, exchange_eq, if_pos hstatus, readData_of_rateLimit herr hlimit]
    cases hmessage : errorMessage repr err with
    | error e =>
      refine .inr ⟨fun h => ?_, rfl⟩
      obtain ⟨text, htext⟩ := h.2.message
      rw [hmessage] at htext
      cases htext
    | ok text =>
      have hiff := @extract_iff repr listGt err ⟨text, hmessage⟩
      cases hextract : extractRetryAfterSeconds repr listGt err with
      | error e =>
        refine .inr ⟨fun h => ?_, rfl⟩
        obtain ⟨hint, hok⟩ := hiff.mpr h.2
        rw [hextract] at hok
        cases hok
      | ok hint =>
        refine .inl ⟨⟨hstatus, hiff.mp ⟨hint, hextract⟩⟩, text, ?_⟩
        rw [usableHint, hextract]
        rfl
  · -- `raise_for_status` raises, and the catch-all swallows it
    refine .inr ⟨fun h => hstatus h.1, ?_⟩
    rw [rpcResult, exchange_eq, if_neg hstatus]

/-! ### The batch -/

section
variable (repr listGt)

/-- The POST of an attempt with its answer. -/
def posted (params : List (PyStr × Json)) (n : ℤ) (answer : Except PyError Response) :
    calls.Event := ⟨.post (lit "send") params (signalSendTimeout n), answer⟩

/-- What the attempts from one on can do. -/
inductive BatchRun (params : List (PyStr × Json)) (n : ℤ) (attempt left : Nat) :
    List calls.Event → Except SendError Bool → Prop where
  | refused {e : SendError} :
      BatchRun params n attempt left [⟨.acquire n, .error e⟩] (.error e)
  | done {slept t0 now : ℚ} {answer : Except PyError Response} {result : Json}
      (hresult : rpcResult repr listGt true answer = .ok result) (hne : result ≠ .null) :
      BatchRun params n attempt left
        [⟨.acquire n, .ok slept⟩, ⟨.monotonic, t0⟩, posted params n answer, ⟨.monotonic, now⟩,
          ⟨.reportRpcDuration (now - t0) n, ()⟩] (.ok true)
  | failed {slept t0 : ℚ} {answer : Except PyError Response}
      (hresult : rpcResult repr listGt true answer = .ok .null)
      (hlast : signalRateLimitMaxAttempts ≤ attempt) :
      BatchRun params n attempt left
        [⟨.acquire n, .ok slept⟩, ⟨.monotonic, t0⟩, posted params n answer] (.ok false)
  | backoff {slept t0 : ℚ} {answer : Except PyError Response} {t : List calls.Event}
      {r : Except SendError Bool}
      (hresult : rpcResult repr listGt true answer = .ok .null)
      (hmore : attempt < signalRateLimitMaxAttempts)
      (hrest : Runs (sendAttempts repr listGt params n (attempt + 1) left) t r) :
      BatchRun params n attempt left
        (⟨.acquire n, .ok slept⟩ :: ⟨.monotonic, t0⟩ :: posted params n answer
          :: ⟨.sleep (2 ^ attempt), ()⟩ :: t) r
  | limited {slept t0 : ℚ} {answer : Except PyError Response} {e : SignalRateLimitError}
      (hresult : rpcResult repr listGt true answer = .error e)
      (hlast : signalRateLimitMaxAttempts ≤ attempt) :
      BatchRun params n attempt left
        [⟨.acquire n, .ok slept⟩, ⟨.monotonic, t0⟩, posted params n answer,
          ⟨.feedback e.retryAfter n, ()⟩] (.ok false)
  | calibrated {slept t0 : ℚ} {answer : Except PyError Response} {e : SignalRateLimitError}
      {t : List calls.Event} {r : Except SendError Bool}
      (hresult : rpcResult repr listGt true answer = .error e)
      (hmore : attempt < signalRateLimitMaxAttempts)
      (hrest : Runs (sendAttempts repr listGt params n (attempt + 1) left) t r) :
      BatchRun params n attempt left
        (⟨.acquire n, .ok slept⟩ :: ⟨.monotonic, t0⟩ :: posted params n answer
          :: ⟨.feedback e.retryAfter n, ()⟩ :: t) r

end

variable {params : List (PyStr × Json)} {n : ℤ}

/-- What is made of the answer of an attempt. -/
theorem batchRun_of_answer {attempt left : Nat} {slept t0 : ℚ}
    {answer : Except PyError Response} {t : List calls.Event}
    {r : Except SendError Bool}
    (h : Runs (match rpcResult repr listGt true answer with
      | .ok .null =>
          if attempt < signalRateLimitMaxAttempts then
            .call (.sleep (2 ^ attempt)) fun _ =>
              sendAttempts repr listGt params n (attempt + 1) left
          else .pure false
      | .ok _ =>
          .call .monotonic fun now : ℚ =>
            .call (.reportRpcDuration (now - t0) n) fun _ => .pure true
      | .error e =>
          .call (.feedback e.retryAfter n) fun _ =>
            if signalRateLimitMaxAttempts ≤ attempt then .pure false
            else sendAttempts repr listGt params n (attempt + 1) left : Action Bool) t r) :
    BatchRun repr listGt params n attempt left
      (⟨.acquire n, .ok slept⟩ :: ⟨.monotonic, t0⟩ :: posted params n answer :: t) r := by
  split at h
  · next hresult =>
    split at h
    · next hmore =>
      obtain ⟨u, t', rfl, h'⟩ := runs_call.mp h
      exact .backoff hresult hmore h'
    · next hlast =>
      obtain ⟨rfl, rfl⟩ := runs_pure.mp h
      exact .failed hresult (not_lt.mp hlast)
  · next result hne hresult =>
    obtain ⟨now, t₁, rfl, h₁⟩ := runs_call.mp h
    obtain ⟨u, t₂, rfl, h₂⟩ := runs_call.mp h₁
    obtain ⟨rfl, rfl⟩ := runs_pure.mp h₂
    exact .done hresult hne
  · next e hresult =>
    obtain ⟨u, t', rfl, h'⟩ := runs_call.mp h
    split at h'
    · next hlast =>
      obtain ⟨rfl, rfl⟩ := runs_pure.mp h'
      exact .limited hresult hlast
    · next hmore => exact .calibrated hresult (not_le.mp hmore) h'

/-- What the attempts at a batch can do. -/
theorem sendAttempts_cases {attempt left : Nat} {t : List calls.Event}
    {r : Except SendError Bool}
    (h : Runs (sendAttempts repr listGt params n attempt (left + 1)) t r) :
    BatchRun repr listGt params n attempt left t r := by
  rw [sendAttempts] at h
  obtain ⟨acquired, t₁, rfl, h₁⟩ := runs_call.mp h
  cases acquired with
  | error e =>
    obtain ⟨rfl, rfl⟩ := runs_raise.mp h₁
    exact .refused
  | ok slept =>
    obtain ⟨(t0 : ℚ), t₂, rfl, h₂⟩ := runs_call.mp h₁
    obtain ⟨answer, t₃, rfl, h₃⟩ := runs_call.mp h₂
    exact batchRun_of_answer h₃

/-! ### The feedback -/

/-- What comes after an event: behind a POST, the feedback of a rate limit, and no feedback of
anything else. -/
def Followed (repr : Json → Except PyError PyStr)
    (listGt : List Json → List Json → Except PyError Bool) (n : ℤ) (ev : calls.Event)
    (next : Option calls.Event) : Prop :=
  match ev with
  | ⟨.post _ _ _, answer⟩ =>
      match rpcResult repr listGt true answer with
      | .error e => next = some ⟨.feedback e.retryAfter n, ()⟩
      | .ok _ => ∀ hint k, next ≠ some ⟨.feedback hint k, ()⟩
  | _ => True

/-- What comes after every event. -/
def AllFollowed (repr : Json → Except PyError PyStr)
    (listGt : List Json → List Json → Except PyError Bool) (n : ℤ) : List calls.Event → Prop
  | [] => True
  | ev :: t => Followed repr listGt n ev t.head? ∧ AllFollowed repr listGt n t

/-- A rate limit is followed by its feedback. -/
theorem followed_of_error {answer : Except PyError Response} {e : SignalRateLimitError}
    (h : rpcResult repr listGt true answer = .error e) :
    Followed repr listGt n (posted params n answer) (some ⟨.feedback e.retryAfter n, ()⟩) := by
  simp only [posted, Followed, h]

/-- Any other answer is followed by no feedback. -/
theorem followed_of_ok {answer : Except PyError Response} {result : Json}
    {next : Option calls.Event} (h : rpcResult repr listGt true answer = .ok result)
    (hnext : ∀ hint k, next ≠ some ⟨.feedback hint k, ()⟩) :
    Followed repr listGt n (posted params n answer) next := by
  simp only [posted, Followed, h]
  exact hnext

/-- In a run, the feedback of every rate limit comes right after its POST. -/
theorem runs_sendAttempts {left : Nat} : ∀ {attempt : Nat} {t : List calls.Event}
    {r : Except SendError Bool},
      Runs (sendAttempts repr listGt params n attempt left) t r → AllFollowed repr listGt n t := by
  induction left with
  | zero =>
    intro attempt t r h
    rw [sendAttempts] at h
    obtain ⟨rfl, -⟩ := runs_pure.mp h
    trivial
  | succ left ih =>
    intro attempt t r h
    cases sendAttempts_cases h with
    | refused => exact ⟨trivial, trivial⟩
    | done hresult hne =>
      exact ⟨trivial, trivial, followed_of_ok hresult (by rintro hint k ⟨⟩), trivial, trivial,
        trivial⟩
    | failed hresult hlast =>
      exact ⟨trivial, trivial, followed_of_ok hresult (by rintro hint k ⟨⟩), trivial⟩
    | backoff hresult hmore hrest =>
      exact ⟨trivial, trivial, followed_of_ok hresult (by rintro hint k ⟨⟩), trivial, ih hrest⟩
    | limited hresult hlast =>
      exact ⟨trivial, trivial, followed_of_error hresult, trivial, trivial⟩
    | calibrated hresult hmore hrest =>
      exact ⟨trivial, trivial, followed_of_error hresult, trivial, ih hrest⟩

/-- What comes after the event at one place. -/
theorem AllFollowed.next {t : List calls.Event} (h : AllFollowed repr listGt n t) :
    ∀ {i : Nat} {ev : calls.Event}, t[i]? = some ev → Followed repr listGt n ev t[i + 1]? := by
  induction t with
  | nil =>
    intro i ev hev
    cases hev
  | cons first t ih =>
    intro i ev hev
    cases i with
    | zero =>
      cases hev
      rw [Nat.zero_add, List.getElem?_cons_succ, ← List.head?_eq_getElem?]
      exact h.1
    | succ i => exact ih h.2 hev

/-- Every rate limit among the answers is fed back to the scheduler by the next call. -/
def FedBack (repr : Json → Except PyError PyStr)
    (listGt : List Json → List Json → Except PyError Bool) (n : ℤ) (t : List calls.Event) : Prop :=
  ∀ i method params timeout answer err, t[i]? = some ⟨.post method params timeout, answer⟩ →
    RateLimited repr answer err →
      t[i + 1]? = some ⟨.feedback (usableHint repr listGt err) n, ()⟩

/-- The rate limit of a response is raised with its hint exactly if the status is 2xx and the
hint can be read, and in a run of a batch every rate limit is fed back exactly if this holds of
every one. -/
theorem rateLimit_reaches_scheduler (repr : Json → Except PyError PyStr)
    (listGt : List Json → List Json → Except PyError Bool) :
    (∀ answer err, RateLimited repr answer err →
        ((∃ message, rpcResult repr listGt true answer
            = .error ⟨message, usableHint repr listGt err⟩) ↔
          IsSuccess answer ∧ Extractable repr err)) ∧
      ∀ params n t r, Runs (sendAttachmentBatch repr listGt params n) t r →
        (FedBack repr listGt n t ↔ ∀ method params timeout answer err,
          (⟨.post method params timeout, answer⟩ : calls.Event) ∈ t →
            RateLimited repr answer err → IsSuccess answer ∧ Extractable repr err) := by
  constructor
  · intro answer err hlimited
    rcases @rpcResult_cases repr listGt answer err hlimited with ⟨hgood, hraised⟩ | ⟨hbad, hnone⟩
    · exact iff_of_true hraised hgood
    · refine iff_of_false ?_ hbad
      rintro ⟨message, herror⟩
      rw [hnone] at herror
      cases herror
  · intro params n t r h
    have hall := runs_sendAttempts h
    constructor
    · intro hfed method params' timeout answer err hmem hlimited
      obtain ⟨i, hi⟩ := List.getElem?_of_mem hmem
      rcases @rpcResult_cases repr listGt answer err hlimited with ⟨hgood, -⟩ | ⟨-, hnone⟩
      · exact hgood
      · -- a limit that is swallowed is followed by no feedback
        have hnext := hall.next hi
        simp only [Followed, hnone] at hnext
        exact absurd (hfed i _ _ _ _ _ hi hlimited) (hnext _ _)
    · intro hgood i method params' timeout answer err hi hlimited
      rcases @rpcResult_cases repr listGt answer err hlimited with
        ⟨-, message, herror⟩ | ⟨hbad, -⟩
      · have hnext := hall.next hi
        simp only [Followed, herror] at hnext
        exact hnext
      · exact absurd (hgood _ _ _ _ _ (List.mem_of_getElem? hi) hlimited) hbad

/-- A rate limit whose data are a string. -/
def stringData : Json := .obj [(lit "code", .int (-5)), (lit "data", .str (lit "x"))]

/-- A daemon that answers every POST with this rate limit. -/
def limitedDaemon : (op : Op) → op.Answer
  | .acquire _ => .ok 0
  | .monotonic => (0 : ℚ)
  | .post _ _ _ => .ok ⟨200, .ok (.obj [(lit "error", stringData)])⟩
  | .reportRpcDuration _ _ | .feedback _ _ | .sleep _ => ()

/-- The rate limit is taken for another failure, and there is no feedback. -/
theorem not_fedBack_stringData :
    ∃ t r, Runs (sendAttachmentBatch (fun _ => .ok []) (fun _ _ => .ok false) [] 1) t r ∧
      ¬ FedBack (fun _ => .ok []) (fun _ _ => .ok false) 1 t := by
  refine ⟨_, _, Prog.runs_run (fun _ => limitedDaemon)
    (sendAttachmentBatch (fun _ => .ok []) (fun _ _ => .ok false) [] 1) [], ?_⟩
  intro hfed
  have hlimited : RateLimited (fun _ => .ok []) (.ok ⟨200, .ok (.obj [(lit "error", stringData)])⟩)
      stringData := ⟨200, _, rfl, rfl, rfl⟩
  have hnext := hfed 2 _ _ _ _ _ rfl hlimited
  cases hnext

end SignalGateway.Proofs.Rpc
