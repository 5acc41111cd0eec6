import SignalGateway.Submit

/-!
# `SignalGateway.Proofs.Submit`: the bounds of a submission

`retryAfterSeconds_cases` says what the wait of a 429 can be: a hint can raise, the wait can
be NaN, and otherwise it is between zero and sixty seconds. `attempts_cases` lists what one
attempt can do. `submit_bounded_iff` joins them: a submission keeps its bounds exactly if no
answer is one of the two bad kinds.

* `InRange` are the waits that the docstring of the source allows.
* `Tame` says of an answer that it is not one of the two bad kinds: a hint that raises in front of
  the last attempt, and a NaN.
* `AttemptRun` is what one attempt can do, and `AttemptRun.bounded` the bounds for it, given those
  of what follows.
* `runs_attempts` is the induction over the attempts that are left.
-/

set_option autoImplicit false

namespace SignalGateway.Proofs.Submit

open SignalGateway.Submit SignalGateway.Envelope SignalGateway.Media SignalGateway.EngineClient
open Prog

/-! ### The wait -/

/-- A number of seconds from zero to sixty. -/
def InRange (wait : PyFloat) : Prop := ∃ q bound, wait = .finite q bound ∧ 0 ≤ q ∧ q ≤ 60

/-- The field `retry_after_ms` of a body that is an object. -/
def hintField (response : Response) : Json :=
  match response.body with
  | .ok (.obj items) => Json.lookup items "retry_after_ms"
  | _ => .null

/-- The hint is read without an error that is not caught: the body raises nothing else, and
its number is not too large for a float. -/
structure HintReads (response : Response) : Prop where
  body : ∀ e, response.body = .error e → e.isValueError = true ∨ e = .attributeError
  number : ∀ n, hintField response = .int n → |n| < 2 ^ 1024 - 2 ^ 970

/-- The wait is NaN: the field is, or it is no number and the header is. -/
def NanHint (response : Response) : Prop :=
  hintField response = .float .nan ∨
    (hintField response).isNumber = false ∧ headerWait response = some .nan

/-- A wait that is a number is clamped to the range. -/
theorem inRange_clampWait {wait : PyFloat} (h : wait ≠ .nan) : InRange (clampWait wait) := by
  cases wait with
  | nan => exact absurd rfl h
  | inf => exact ⟨60, _, rfl, by norm_num, le_refl _⟩
  | negInf => exact ⟨0, _, rfl, le_refl _, by norm_num⟩
  | finite q bound =>
    by_cases hneg : q < 0
    · have hmax : PyFloat.max (.finite q bound) zeroS = zeroS := by
        simp [PyFloat.max, PyFloat.lt, zeroS, hneg]
      rw [clampWait, hmax]
      exact ⟨0, _, rfl, le_refl _, by norm_num⟩
    · have hmax : PyFloat.max (.finite q bound) zeroS = .finite q bound := by
        simp [PyFloat.max, PyFloat.lt, zeroS, hneg]
      rw [clampWait, hmax]
      by_cases hbig : 60 < q
      · refine ⟨60, PyFloat.bound_of_small (by norm_num), ?_, by norm_num, le_refl _⟩
        simp [PyFloat.min, PyFloat.lt, retryAfterCapS, hbig]
      · refine ⟨q, bound, ?_, not_lt.mp hneg, not_lt.mp hbig⟩
        simp [PyFloat.min, PyFloat.lt, retryAfterCapS, hbig]

/-- A division by a number does not make a NaN. -/
theorem divNat_ne_nan {x : PyFloat} {n : Nat} (h : x ≠ .nan) : x.divNat n ≠ .nan := by
  cases x with
  | finite q bound => exact PyFloat.ofRat_ne_nan _
  | _ => exact h

/-- What becomes of a body that raises. -/
theorem retryAfterMs_of_error {response : Response} {e : PyError}
    (hbody : response.body = .error e) :
    retryAfterMs response
      = if e.isValueError || e == .attributeError then .ok .null else .error e := by
  rw [retryAfterMs, hbody]
  rfl

/-- The field is what the `try` leaves, unless the body raises something else. -/
theorem retryAfterMs_eq {response : Response}
    (h : ∀ e, response.body = .error e → e.isValueError = true ∨ e = .attributeError) :
    retryAfterMs response = .ok (hintField response) := by
  cases hbody : response.body with
  | error e =>
    have hcaught : (e.isValueError || e == .attributeError) = true := by
      simpa using h e hbody
    rw [retryAfterMs_of_error hbody, if_pos hcaught, hintField, hbody]
  | ok body =>
    rw [retryAfterMs, hintField, hbody]
    cases body with
    | obj items => rfl
    | _ => rfl

/-- A body that raises something else. -/
theorem retryAfterMs_error {response : Response} {e : PyError} (hbody : response.body = .error e)
    (h : ¬ (e.isValueError = true ∨ e = .attributeError)) :
    retryAfterMs response = .error e := by
  have hmissed : ¬ (e.isValueError || e == .attributeError) = true := by
    simpa using h
  rw [retryAfterMs_of_error hbody, if_neg hmissed]

/-- The wait of a field that is no number is that of the header. -/
theorem bodyWait_of_not_number {field : Json} (h : field.isNumber = false) :
    bodyWait field = .ok none := by
  cases field with
  | bool b => cases h
  | int n => cases h
  | float x => cases h
  | _ => rfl

/-- The wait of a number is one, or the number is too large. -/
theorem bodyWait_of_number {field : Json} (h : field.isNumber = true) :
    (∃ n, field = .int n ∧ 2 ^ 1024 - 2 ^ 970 ≤ |n| ∧
        bodyWait field = .error .overflowError) ∨
      (∀ n, field = .int n → |n| < 2 ^ 1024 - 2 ^ 970) ∧
        ∃ wait, bodyWait field = .ok (some wait) ∧ (wait = .nan ↔ field = .float .nan) := by
  -- Only an integer can be too large for a float, and only NaN stays NaN.
  cases field with
  | bool b =>
    refine .inr ⟨by rintro _ ⟨⟩, _, rfl, iff_of_false ?_ Json.noConfusion⟩
    exact divNat_ne_nan PyFloat.noConfusion
  | int n =>
    rcases floatOfInt_cases n with ⟨hsmall, q, bound, hfloat⟩ | ⟨hbig, hover⟩
    · refine .inr ⟨?_, (PyFloat.finite q bound).divNat 1000, ?_, iff_of_false ?_ Json.noConfusion⟩
      · rintro _ ⟨⟩
        exact hsmall
      · rw [bodyWait, hfloat]
        rfl
      · exact divNat_ne_nan PyFloat.noConfusion
    · refine .inl ⟨n, rfl, hbig, ?_⟩
      rw [bodyWait, hover]
      rfl
  | float x =>
    refine .inr ⟨by rintro _ ⟨⟩, _, rfl, ?_⟩
    cases x with
    | nan => exact iff_of_true rfl rfl
    | finite q bound => exact iff_of_false (divNat_ne_nan PyFloat.noConfusion) (by rintro ⟨⟩)
    | inf => exact iff_of_false PyFloat.noConfusion (by rintro ⟨⟩)
    | negInf => exact iff_of_false PyFloat.noConfusion (by rintro ⟨⟩)
  | _ => cases h

/-- The wait for a field: its own, or that of the header. -/
theorem retryAfterSeconds_eq {response : Response} {field : Json}
    (h : retryAfterMs response = .ok field) :
    retryAfterSeconds response = (bodyWait field).map fun wait =>
      clampWait (wait.getD ((headerWait response).getD defaultRetryAfterS)) := by
  rw [retryAfterSeconds, h]
  show (bodyWait field >>= _) = _
  cases bodyWait field with
  | error e => rfl
  | ok wait => cases wait <;> rfl

/-- What the wait of a 429 can be. -/
theorem retryAfterSeconds_cases (response : Response) :
    (¬ HintReads response ∧ ∃ e, retryAfterSeconds response = .error e) ∨
      HintReads response ∧ ∃ wait, retryAfterSeconds response = .ok wait ∧
        (InRange wait ↔ ¬ NanHint response) := by
  have hrange : ∀ {wait : PyFloat}, (wait = .nan ↔ NanHint response) →
      (InRange (clampWait wait) ↔ ¬ NanHint response) := by
    intro wait hnan
    rw [← hnan]
    constructor
    · rintro ⟨q, bound, heq, -⟩ rfl
      cases heq
    · exact inRange_clampWait
  by_cases hbody : ∀ e, response.body = .error e → e.isValueError = true ∨ e = .attributeError
  · -- a number in the body counts, otherwise the header does
    have hfield := retryAfterMs_eq hbody
    cases hnumber : (hintField response).isNumber with
    | true =>
      rcases bodyWait_of_number hnumber with ⟨n, hn, hbig, hwait⟩ | ⟨hfits, wait, hwait, hnan⟩
      · refine .inl ⟨fun hreads => (hreads.number n hn).not_ge hbig, .overflowError, ?_⟩
        rw [retryAfterSeconds_eq hfield, hwait]
        rfl
      · refine .inr ⟨⟨hbody, hfits⟩, clampWait wait, ?_, hrange ?_⟩
        · rw [retryAfterSeconds_eq hfield, hwait]
          rfl
        · rw [NanHint, hnumber, hnan]
          simp
    | false =>
      refine .inr ⟨⟨hbody, fun n hn => ?_⟩,
        clampWait ((headerWait response).getD defaultRetryAfterS), ?_, hrange ?_⟩
      · rw [hn] at hnumber
        cases hnumber
      · rw [retryAfterSeconds_eq hfield, bodyWait_of_not_number hnumber]
        rfl
      · have hne : hintField response ≠ .float .nan := by
          intro heq
          rw [heq] at hnumber
          cases hnumber
        rw [NanHint, hnumber]
        cases headerWait response with
        | none => simp [hne, defaultRetryAfterS]
        | some wait => simp [hne]
  · obtain ⟨e, hbody⟩ := not_forall.mp hbody
    obtain ⟨he, hmissed⟩ := Classical.not_imp.mp hbody
    refine .inl ⟨fun hreads => hmissed (hreads.body e he), e, ?_⟩
    rw [retryAfterSeconds, retryAfterMs_error he hmissed]
    rfl

/-! ### The attempts -/

/-- The answer to a POST. -/
def postAnswer : calls.Event → Option (Except PyError Response)
  | ⟨.post _ _ _, answer⟩ => some answer
  | ⟨.sleep _, _⟩ => none

/-- The length of a sleep. -/
def sleepTime : calls.Event → Option PyFloat
  | ⟨.post _ _ _, _⟩ => none
  | ⟨.sleep seconds, _⟩ => some seconds

/-- The answers to the POSTs, in order. -/
def posts (t : List calls.Event) : List (Except PyError Response) := t.filterMap postAnswer

/-- The sleeps, in order. -/
def sleeps (t : List calls.Event) : List PyFloat := t.filterMap sleepTime

/-- A submission returns, makes at most three POSTs, returns `True` exactly for a last POST
with a 2xx response, and sleeps for zero to sixty seconds. -/
structure Bounded (t : List calls.Event) (r : Except PyError Bool) : Prop where
  returns : ∃ ok, r = .ok ok
  posts_le : (posts t).length ≤ 3
  verdict : r = .ok true ↔
    ∃ response, (posts t).getLast? = some (.ok response) ∧ response.isSuccess = true
  sleeps_range : ∀ wait ∈ sleeps t, InRange wait

/-- The answer to the attempt of this number keeps the bounds. -/
def Tame (attempt : Nat) : Except PyError Response → Prop
  | .error e => e = .httpError
  | .ok response =>
      response.status = 429 → HintReads response ∧ (attempt < maxAttempts → ¬ NanHint response)

/-- The answers from this attempt on do. -/
def TameFrom : Nat → List (Except PyError Response) → Prop
  | _, [] => True
  | attempt, answer :: answers => Tame attempt answer ∧ TameFrom (attempt + 1) answers

section
variable {client : Client} {body : List (PyStr × Json)}

/-- A POST with its answer. -/
def posted (client : Client) (body : List (PyStr × Json)) (answer : Except PyError Response) :
    calls.Event := ⟨.post client.url body client.headers, answer⟩

/-- What the attempts from one on can do. -/
inductive AttemptRun (client : Client) (body : List (PyStr × Json)) (attempt left : Nat) :
    List calls.Event → Except PyError Bool → Prop where
  | failed : AttemptRun client body attempt left [posted client body (.error .httpError)] (.ok false)
  | raised {e : PyError} (he : e ≠ .httpError) :
      AttemptRun client body attempt left [posted client body (.error e)] (.error e)
  | accepted {response : Response} (h : response.isSuccess = true) :
      AttemptRun client body attempt left [posted client body (.ok response)] (.ok true)
  | rejected {response : Response} (h : response.isSuccess = false) (h429 : response.status ≠ 429) :
      AttemptRun client body attempt left [posted client body (.ok response)] (.ok false)
  | unread {response : Response} {e : PyError} (h429 : response.status = 429)
      (hwait : retryAfterSeconds response = .error e) :
      AttemptRun client body attempt left [posted client body (.ok response)] (.error e)
  | exhausted {response : Response} {wait : PyFloat} (h429 : response.status = 429)
      (hwait : retryAfterSeconds response = .ok wait) (hlast : maxAttempts ≤ attempt) :
      AttemptRun client body attempt left [posted client body (.ok response)] (.ok false)
  | retried {response : Response} {wait : PyFloat} {t : List calls.Event}
      {r : Except PyError Bool} (h429 : response.status = 429)
      (hwait : retryAfterSeconds response = .ok wait) (hmore : attempt < maxAttempts)
      (hrest : Runs (attempts client body (attempt + 1) left) t r) :
      AttemptRun client body attempt left
        (posted client body (.ok response) :: ⟨.sleep wait, ()⟩ :: t) r

/-- What the attempts can do. -/
theorem attempts_cases {attempt left : Nat} {t : List calls.Event} {r : Except PyError Bool}
    (h : Runs (attempts client body attempt (left + 1)) t r) :
    AttemptRun client body attempt left t r := by
  rw [attempts] at h
  obtain ⟨answer, t', rfl, hrest⟩ := runs_call.mp h
  cases answer with
  | error e =>
    have hrest : Runs (if e = .httpError then .pure false else .raise e : Action Bool) t' r := hrest
    split at hrest
    · next he =>
      obtain ⟨rfl, rfl⟩ := runs_pure.mp hrest
      rw [he]
      exact .failed
    · next he =>
      obtain ⟨rfl, rfl⟩ := runs_raise.mp hrest
      exact .raised he
  | ok response =>
    have hrest : Runs (if response.isSuccess then .pure true
        else if response.status = 429 then
          (Prog.ofExcept (retryAfterSeconds response)).bind fun wait =>
            if maxAttempts ≤ attempt then .pure false
            else .call (.sleep wait) fun _ => attempts client body (attempt + 1) left
        else .pure false : Action Bool) t' r := hrest
    split at hrest
    · next hsuccess =>
      obtain ⟨rfl, rfl⟩ := runs_pure.mp hrest
      exact .accepted hsuccess
    · next hsuccess =>
      split at hrest
      · next h429 =>
        cases hwait : retryAfterSeconds response with
        | error e =>
          rw [hwait] at hrest
          obtain ⟨rfl, rfl⟩ := runs_raise.mp hrest
          exact .unread h429 hwait
        | ok wait =>
          rw [hwait] at hrest
          have hrest : Runs (if maxAttempts ≤ attempt then .pure false
            else .call (.sleep wait) fun _ => attempts client body (attempt + 1) left :
            Action Bool) t' r := hrest
          split at hrest
          · next hlast =>
            obtain ⟨rfl, rfl⟩ := runs_pure.mp hrest
            exact .exhausted h429 hwait hlast
          · next hmore =>
            obtain ⟨u, t'', rfl, hnext⟩ := runs_call.mp hrest
            exact .retried h429 hwait (not_le.mp hmore) hnext
      · next h429 =>
        obtain ⟨rfl, rfl⟩ := runs_pure.mp hrest
        exact .rejected (Bool.eq_false_iff.mpr hsuccess) h429

/-- A 429 is no success. -/
theorem isSuccess_of_429 {response : Response} (h : response.status = 429) :
    response.isSuccess = false := by
  rw [Response.isSuccess, h]
  rfl

/-- The bounds of the attempts from one on. -/
structure BoundedFrom (attempt left : Nat) (t : List calls.Event) (r : Except PyError Bool) :
    Prop where
  posts_le : (posts t).length ≤ left
  verdict : r = .ok true ↔
    ∃ response, (posts t).getLast? = some (.ok response) ∧ response.isSuccess = true
  tame_iff : ((∃ ok, r = .ok ok) ∧ ∀ wait ∈ sleeps t, InRange wait) ↔ TameFrom attempt (posts t)

/-- One POST that ends the attempts. -/
theorem boundedFrom_posted {attempt left : Nat} {answer : Except PyError Response}
    {r : Except PyError Bool}
    (hverdict : r = .ok true ↔ ∃ response, answer = .ok response ∧ response.isSuccess = true)
    (htame : (∃ ok, r = .ok ok) ↔ Tame attempt answer) :
    BoundedFrom attempt (left + 1) [posted client body answer] r where
  posts_le := Nat.succ_le_succ (Nat.zero_le left)
  verdict := by
    rw [hverdict]
    exact exists_congr fun response => and_congr_left' Option.some_inj.symm
  tame_iff := by
    rw [htame]
    show Tame attempt answer ∧ (∀ wait ∈ [], InRange wait) ↔ Tame attempt answer ∧ True
    simp

/-- What a retry adds in front of the other attempts. -/
theorem BoundedFrom.retried {attempt left : Nat} {response : Response} {wait : PyFloat}
    {t : List calls.Event} {r : Except PyError Bool} (h429 : response.status = 429)
    (hmore : attempt < maxAttempts) (hreads : HintReads response)
    (hrange : InRange wait ↔ ¬ NanHint response) (hposts : posts t ≠ [])
    (h : BoundedFrom (attempt + 1) left t r) :
    BoundedFrom attempt (left + 1)
      (posted client body (.ok response) :: ⟨.sleep wait, ()⟩ :: t) r where
  posts_le := Nat.succ_le_succ h.posts_le
  verdict := by
    rw [h.verdict]
    show _ ↔ ∃ response', (.ok response :: posts t).getLast? = some (.ok response') ∧ _
    rw [List.getLast?_cons_of_ne_nil hposts]
  tame_iff := by
    have htame : Tame attempt (.ok response) ↔ InRange wait := by
      rw [hrange]
      exact ⟨fun ht => (ht h429).2 hmore, fun hnan _ => ⟨hreads, fun _ => hnan⟩⟩
    show (∃ ok, r = .ok ok) ∧ (∀ w ∈ wait :: sleeps t, InRange w) ↔
      Tame attempt (.ok response) ∧ TameFrom (attempt + 1) (posts t)
    rw [← h.tame_iff, htame, List.forall_mem_cons]
    tauto

/-- Every attempt makes a POST. -/
theorem posts_ne_nil {attempt left : Nat} {t : List calls.Event} {r : Except PyError Bool}
    (h : Runs (attempts client body attempt (left + 1)) t r) : posts t ≠ [] := by
  cases attempts_cases h <;> exact List.cons_ne_nil _ _

/-- A hint that raises is not read. -/
theorem not_hintReads_of_error {response : Response} {e : PyError}
    (h : retryAfterSeconds response = .error e) : ¬ HintReads response := by
  rcases retryAfterSeconds_cases response with ⟨hno, -⟩ | ⟨-, wait, hwait, -⟩
  · exact hno
  · rw [h] at hwait
    cases hwait

/-- A hint with a wait is read. -/
theorem hintReads_of_ok {response : Response} {wait : PyFloat}
    (h : retryAfterSeconds response = .ok wait) :
    HintReads response ∧ (InRange wait ↔ ¬ NanHint response) := by
  rcases retryAfterSeconds_cases response with ⟨-, e, he⟩ | ⟨hreads, wait', hwait, hrange⟩
  · rw [h] at he
    cases he
  · cases h.symm.trans hwait
    exact ⟨hreads, hrange⟩

/-- One attempt keeps the bounds if those behind it do. -/
theorem AttemptRun.bounded {attempt left : Nat} {t : List calls.Event} {r : Except PyError Bool}
    (h : AttemptRun client body attempt left t r)
    (hnext : attempt < maxAttempts → ∀ {t r}, Runs (attempts client body (attempt + 1) left) t r →
      posts t ≠ [] ∧ BoundedFrom (attempt + 1) left t r) :
    BoundedFrom attempt (left + 1) t r := by
  cases h with
  | failed =>
    exact boundedFrom_posted (iff_of_false (by rintro ⟨⟩) (by rintro ⟨_, ⟨⟩, -⟩))
      (iff_of_true ⟨false, rfl⟩ rfl)
  | raised he =>
    exact boundedFrom_posted (iff_of_false (by rintro ⟨⟩) (by rintro ⟨_, ⟨⟩, -⟩))
      (iff_of_false (by rintro ⟨_, ⟨⟩⟩) he)
  | @accepted response hsuccess =>
    refine boundedFrom_posted (iff_of_true rfl ⟨response, rfl, hsuccess⟩)
      (iff_of_true ⟨true, rfl⟩ fun h429 => ?_)
    rw [isSuccess_of_429 h429] at hsuccess
    cases hsuccess
  | rejected hsuccess h429 =>
    refine boundedFrom_posted (iff_of_false (by rintro ⟨⟩) ?_)
      (iff_of_true ⟨false, rfl⟩ fun h => absurd h h429)
    rintro ⟨_, ⟨⟩, hyes⟩
    rw [hsuccess] at hyes
    cases hyes
  | unread h429 hwait =>
    -- the hint is read outside the `try`, so its error leaves the loop
    refine boundedFrom_posted (iff_of_false (by rintro ⟨⟩) ?_)
      (iff_of_false (by rintro ⟨_, ⟨⟩⟩) fun ht => not_hintReads_of_error hwait (ht h429).1)
    rintro ⟨_, ⟨⟩, hyes⟩
    rw [isSuccess_of_429 h429] at hyes
    cases hyes
  | exhausted h429 hwait hlast =>
    -- a NaN hint does no harm here, since nothing is slept
    refine boundedFrom_posted (iff_of_false (by rintro ⟨⟩) ?_)
      (iff_of_true ⟨false, rfl⟩ fun _ =>
        ⟨(hintReads_of_ok hwait).1, fun hmore => absurd hmore (not_lt.mpr hlast)⟩)
    rintro ⟨_, ⟨⟩, hyes⟩
    rw [isSuccess_of_429 h429] at hyes
    cases hyes
  | retried h429 hwait hmore hrest =>
    obtain ⟨hposts, hbounded⟩ := hnext hmore hrest
    obtain ⟨hreads, hrange⟩ := hintReads_of_ok hwait
    exact hbounded.retried h429 hmore hreads hrange hposts

/-- The bounds hold of the attempts from one on, up to the last one. -/
theorem runs_attempts {left : Nat} : ∀ {attempt : Nat} {t : List calls.Event}
    {r : Except PyError Bool}, attempt + left = maxAttempts →
      Runs (attempts client body attempt (left + 1)) t r → BoundedFrom attempt (left + 1) t r := by
  induction left with
  | zero =>
    intro attempt t r hlast h
    exact (attempts_cases h).bounded fun hmore => absurd hlast hmore.ne
  | succ left ih =>
    intro attempt t r hlast h
    refine (attempts_cases h).bounded fun _ t' r' hrest => ⟨posts_ne_nil hrest, ih ?_ hrest⟩
    omega

/-- The body is built exactly if the timestamp has a text. -/
theorem buildChatRequest_cases (message : InboundMessage) (settings : Settings)
    (audio : Option InboundAudio) :
    (∃ key, strInt message.timestampMs = .ok key) ∧
        (∃ body, buildChatRequest message settings audio = .ok body) ∨
      (¬ ∃ key, strInt message.timestampMs = .ok key) ∧
        ∃ e, buildChatRequest message settings audio = .error e := by
  unfold buildChatRequest
  cases strInt message.timestampMs with
  | ok key => exact .inl ⟨⟨key, rfl⟩, _, rfl⟩
  | error e => exact .inr ⟨by rintro ⟨key, ⟨⟩⟩, e, rfl⟩

/-- A submission keeps its bounds exactly if the timestamp of the message has a text, every
POST gets a response or an `httpx.HTTPError`, no 429 has a hint that raises, and none but the
last has one that is NaN. -/
theorem submit_bounded_iff {message : InboundMessage} {audio : Option InboundAudio}
    {t : List calls.Event} {r : Except PyError Bool} (h : Runs (submit client message audio) t r) :
    Bounded t r ↔ (∃ key, strInt message.timestampMs = .ok key) ∧ TameFrom 1 (posts t) := by
  rw [submit] at h
  rcases buildChatRequest_cases message client.settings audio with
    ⟨hkey, body, hbody⟩ | ⟨hkey, e, herror⟩
  · rw [hbody] at h
    have hbounded : BoundedFrom 1 3 t r := runs_attempts rfl h
    rw [← hbounded.tame_iff]
    constructor
    · exact fun hb => ⟨hkey, hb.returns, hb.sleeps_range⟩
    · rintro ⟨-, hreturns, hsleeps⟩
      exact ⟨hreturns, hbounded.posts_le, hbounded.verdict, hsleeps⟩
  · rw [herror] at h
    obtain ⟨rfl, rfl⟩ := runs_raise.mp h
    refine iff_of_false ?_ fun h => hkey h.1
    rintro ⟨⟨_, ⟨⟩⟩, -⟩

end

/-- A client. -/
def someClient : Client where
  settings := { signalAccount := [], engineApiKey := lit "key", gatewayPublicUrl := [] }
  engineBaseUrl := lit "https://engine.example"

/-- A message. -/
def someMessage : InboundMessage where
  userId := .str (lit "user")
  chatId := .str (lit "user")
  text := lit "Hi"
  timestampMs := 1

/-- A worker that is busy for one POST. -/
def busyOnce (before : List calls.Event) : (op : Op) → op.Answer
  | .post _ _ _ =>
      .ok (if before.isEmpty then ⟨429, .error .jsonDecodeError, none⟩ else ⟨202, .ok .null, none⟩)
  | .sleep _ => ()

/-- A worker that is busy once is asked again. -/
theorem submit_bounded_busyOnce :
    ∃ t r, Runs (submit someClient someMessage none) t r ∧ sleeps t ≠ [] ∧ Bounded t r := by
  have hrun := Prog.runs_run busyOnce (submit someClient someMessage none) []
  refine ⟨_, _, hrun, by rintro ⟨⟩, (submit_bounded_iff hrun).mpr ⟨⟨_, rfl⟩, ?_, ?_, trivial⟩⟩
  · intro _
    refine ⟨⟨?_, by rintro _ ⟨⟩⟩, ?_⟩
    · rintro _ ⟨⟩
      exact .inl rfl
    · rintro - (⟨⟨⟩⟩ | ⟨-, ⟨⟩⟩)
  · rintro ⟨⟩

/-- A worker that asks for a wait of NaN milliseconds. -/
def nanWorker : (op : Op) → op.Answer
  | .post _ _ _ => .ok ⟨429, .ok (.obj [(lit "retry_after_ms", .float .nan)]), none⟩
  | .sleep _ => ()

/-- A NaN hint passes the clamp. -/
theorem not_bounded_nanWorker :
    ∃ t r, Runs (submit someClient someMessage none) t r ∧ ¬ Bounded t r := by
  refine ⟨_, _, Prog.runs_run (fun _ => nanWorker) (submit someClient someMessage none) [], ?_⟩
  intro hbounded
  obtain ⟨q, bound, heq, -⟩ := hbounded.sleeps_range .nan List.mem_cons_self
  cases heq

end SignalGateway.Proofs.Submit
