import SignalGateway.Client
import SignalGateway.Lib.Contracts
import SignalGateway.Proofs.RateLimitErrors
import SignalGateway.Proofs.Routing

/-!
# `SignalGateway.Proofs.Batches`: the attempts of a send

The runs of `sendAttachments`, over any answers. `Attempt` is a granted call of `acquire` with the
RPC behind it.

* `flatten_batchesOf` and `length_of_mem_batchesOf`: the batches cut the list in order.
* `runs_sendAttachmentBatch`: the calls of one batch are one or two attempts.
* `runs_sendBatches`: the calls of the loop are the attempts of its batches, one batch after the
  other, whatever the outcomes are.
* `runs_sendAttachments`: a run loses nothing exactly if it is not `Broken`. In a broken run an
  estimate, a token check or the lookup of the recipient raises, and nothing in the loop catches
  it.

Each lemma about runs has two cases: the part that ran ended on its own, or it raised at a call
that was answered with an error (`Refused`). `SendAttachments` finds out when the scheduler gives
such an answer.
-/

set_option autoImplicit false

namespace SignalGateway.Proofs.Batches

open SignalGateway.Rpc SignalGateway.SignalClient
open SignalGateway.Client (batchesOf batchParams signalMaxAttachmentsPerMsg)
open Prog Regex

/-! ### The batches of a list -/

variable {repr : Json → Except PyError PyStr}
  {listGt : List Json → List Json → Except PyError Bool} {params : List (PyStr × Json)} {n : ℤ}

/-! ### One batch -/

/-- A call of a batch of `n` files. -/
def BatchOp (params : List (PyStr × Json)) (n : ℤ) : Rpc.Op → Prop
  | .acquire n' => n' = n
  | .post _ params' _ => params' = params
  | .monotonic | .reportRpcDuration _ _ | .feedback _ _ | .sleep _ => True

/-- A batch asks for its own size, and posts its own parameters. -/
theorem sendAttempts_only (params : List (PyStr × Json)) (n : ℤ) (left : Nat) : ∀ attempt,
    (sendAttempts repr listGt params n attempt left).Only (BatchOp params n) := by
  induction left with
  | zero => exact fun _ => trivial
  | succ left ih =>
    intro attempt
    refine ⟨rfl, fun acquired => only_bind (only_ofExcept acquired) fun _ =>
      ⟨trivial, fun t0 => ⟨rfl, fun answer => ?_⟩⟩⟩
    -- what is made of the answer
    beta_reduce
    split
    · split
      · exact ⟨trivial, fun _ => ih _⟩
      · exact trivial
    · exact ⟨trivial, fun _ => ⟨trivial, fun _ => trivial⟩⟩
    · refine ⟨trivial, fun _ => ?_⟩
      split
      · exact trivial
      · exact ih _

/-- The RPC has given a result. -/
def succeeded (repr : Json → Except PyError PyStr)
    (listGt : List Json → List Json → Except PyError Bool) (answer : Except PyError Response) :
    Bool :=
  match rpcResult repr listGt true answer with
  | .ok .null => false
  | .ok _ => true
  | .error _ => false

/-- A granted call of `acquire`, with what it slept, and the response to the RPC behind it. -/
structure Attempt where
  slept : ℚ
  answer : Except PyError Response

/-- The calls of an attempt. -/
def Attempt.events (params : List (PyStr × Json)) (n : ℤ) (a : Attempt) : List Rpc.calls.Event :=
  [⟨.acquire n, Except.ok a.slept⟩, ⟨.post (lit "send") params (signalSendTimeout n), a.answer⟩]

/-- The calls of `acquire`, and the RPCs with attachments. -/
def isAttempt : Rpc.Op → Bool
  | .acquire _ => true
  | .post _ params _ => (params.lookup (lit "attachments")).isSome
  | .monotonic | .reportRpcDuration _ _ | .feedback _ _ | .sleep _ => false

/-- The attempts in a run. -/
def attemptCalls (t : List Rpc.calls.Event) : List Rpc.calls.Event :=
  t.filter fun ev => isAttempt ev.1

/-- The attempts for one batch: all but the last have failed, and a failure is tried again as
long as attempts are left. -/
structure Attempted (repr : Json → Except PyError PyStr)
    (listGt : List Json → List Json → Except PyError Bool) (limit : Nat)
    (attempts : List Attempt) : Prop where
  pos : 1 ≤ attempts.length
  le : attempts.length ≤ limit
  failed : ∀ a ∈ attempts.dropLast, succeeded repr listGt a.answer = false
  exhausted : attempts.any (fun a => succeeded repr listGt a.answer) = true ∨
    attempts.length = limit

/-- The last attempt has succeeded, or none is left. -/
theorem Attempted.last {limit : Nat} (h : 1 ≤ limit) {a : Attempt}
    (hend : succeeded repr listGt a.answer = true ∨ limit = 1) :
    Attempted repr listGt limit [a] where
  pos := le_rfl
  le := h
  failed _ hmem := absurd hmem List.not_mem_nil
  exhausted := hend.imp (by simp) Eq.symm

/-- An attempt that has failed is followed by one attempt fewer. -/
theorem Attempted.retry {limit : Nat} {a : Attempt} {attempts : List Attempt}
    (hfailed : succeeded repr listGt a.answer = false) (h : Attempted repr listGt limit attempts) :
    Attempted repr listGt (limit + 1) (a :: attempts) where
  pos := Nat.le_add_left 1 _
  le := Nat.succ_le_succ h.le
  failed := by
    have hne : attempts ≠ [] := List.ne_nil_of_length_pos h.pos
    rw [List.dropLast_cons_of_ne_nil hne]
    exact List.forall_mem_cons.mpr ⟨hfailed, h.failed⟩
  exhausted := h.exhausted.imp (fun hany => by simp [hany]) fun hlength => by simp [hlength]

/-- An estimate or a token check is answered with an error. -/
def Refused : Client.calls.Event → Prop
  | ⟨.estimateWait _, answer⟩ => ∃ e : PyError, answer = .error e
  | ⟨.rpc (.acquire _), answer⟩ => ∃ e : SendError, answer = .error e
  | _ => False

/-- No estimate and no token check raises. -/
def Answered (t : List Client.calls.Event) : Prop := ∀ ev ∈ t, ¬ Refused ev

/-- No event was refused. -/
theorem answered_nil : Answered [] := fun _ hev => absurd hev List.not_mem_nil

/-- The first event, and the others. -/
@[simp] theorem answered_cons {ev : Client.calls.Event} {t : List Client.calls.Event} :
    Answered (ev :: t) ↔ ¬ Refused ev ∧ Answered t := List.forall_mem_cons

/-- The events of both parts. -/
@[simp] theorem answered_append {t u : List Client.calls.Event} :
    Answered (t ++ u) ↔ Answered t ∧ Answered u := List.forall_mem_append

/-- A call of a batch, in the run of a method of the client. -/
def lifted (ev : Rpc.calls.Event) : Client.calls.Event := ⟨.rpc ev.1, ev.2⟩

/-- How an attempt goes on: it has succeeded, or the attempts are used up, or `next` is run. -/
inductive GoesOn (succeeds : Bool) (attempt : Nat) (next : Action Bool) (t : List Rpc.calls.Event)
    (r : Except SendError Bool) : Prop where
  | delivered (hok : succeeds = true) (hcalls : attemptCalls t = [])
      (hanswered : Answered (t.map lifted)) (hr : r = .ok true)
  | exhausted (hfailed : succeeds = false) (hlast : signalRateLimitMaxAttempts ≤ attempt)
      (hcalls : attemptCalls t = []) (hanswered : Answered (t.map lifted)) (hr : r = .ok false)
  | again (hfailed : succeeds = false) (hmore : attempt < signalRateLimitMaxAttempts)
      (u : List Rpc.calls.Event) (hnext : Runs next u r) (hcalls : attemptCalls t = attemptCalls u)
      (hanswered : Answered (t.map lifted) ↔ Answered (u.map lifted))

/-- One attempt, and how it goes on. -/
theorem runs_attempt (hparams : (params.lookup (lit "attachments")).isSome = true)
    {attempt left : Nat} {t : List Rpc.calls.Event} {r : Except SendError Bool}
    (h : Runs (sendAttempts repr listGt params n attempt (left + 1)) t r) :
    (∃ (a : Attempt) (t' : List Rpc.calls.Event),
      attemptCalls t = a.events params n ++ attemptCalls t' ∧
        (Answered (t.map lifted) ↔ Answered (t'.map lifted)) ∧
        GoesOn (succeeded repr listGt a.answer) attempt
          (sendAttempts repr listGt params n (attempt + 1) left) t' r) ∨
      ¬ Answered (t.map lifted) ∧ ∃ e, r = .error e := by
  -- The three calls that every attempt starts with, once its tokens are granted.
  have hcalls : ∀ (slept t0 : ℚ) (answer : Except PyError Response) (t' : List Rpc.calls.Event),
      attemptCalls (⟨.acquire n, .ok slept⟩ :: ⟨.monotonic, t0⟩ :: Rpc.posted params n answer :: t')
        = Attempt.events params n ⟨slept, answer⟩ ++ attemptCalls t' := by
    intro slept t0 answer t'
    simp [attemptCalls, isAttempt, Rpc.posted, hparams, Attempt.events]
  have hclear : ∀ (slept t0 : ℚ) (answer : Except PyError Response) (t' : List Rpc.calls.Event),
      Answered ((⟨.acquire n, .ok slept⟩ :: ⟨.monotonic, t0⟩ :: Rpc.posted params n answer :: t' :
        List Rpc.calls.Event).map lifted) ↔ Answered (t'.map lifted) := by
    intro slept t0 answer t'
    simp [Rpc.posted, lifted, Refused]
  rcases Rpc.sendAttempts_cases h with
    ⟨⟩ | @⟨slept, t0, now, answer, result, hresult, hne⟩ | @⟨slept, t0, answer, hresult, hlast⟩ |
    @⟨slept, t0, answer, u, _, hresult, hmore, hrest⟩ | @⟨slept, t0, answer, e, hresult, hlast⟩ |
    @⟨slept, t0, answer, e, u, _, hresult, hmore, hrest⟩
  · refine .inr ⟨fun hanswered => ?_, _, rfl⟩
    exact hanswered _ List.mem_cons_self ⟨_, rfl⟩
  · refine .inl ⟨⟨slept, answer⟩, _, hcalls _ _ _ _, hclear _ _ _ _, .delivered ?_ rfl ?_ rfl⟩
    · -- any result but `None` counts
      simp only [succeeded, hresult]
    · simp [lifted, Refused, answered_nil]
  · exact .inl ⟨⟨slept, answer⟩, _, hcalls _ _ _ _, hclear _ _ _ _,
      .exhausted (by simp only [succeeded, hresult]) hlast rfl answered_nil rfl⟩
  · exact .inl ⟨⟨slept, answer⟩, _, hcalls _ _ _ _, hclear _ _ _ _,
      .again (by simp only [succeeded, hresult]) hmore u hrest rfl (by simp [lifted, Refused])⟩
  · refine .inl ⟨⟨slept, answer⟩, _, hcalls _ _ _ _, hclear _ _ _ _,
      .exhausted (by simp only [succeeded, hresult]) hlast rfl ?_ rfl⟩
    simp [lifted, Refused, answered_nil]
  · exact .inl ⟨⟨slept, answer⟩, _, hcalls _ _ _ _, hclear _ _ _ _,
      .again (by simp only [succeeded, hresult]) hmore u hrest rfl (by simp [lifted, Refused])⟩

/-- What a batch has done: its attempts, unless a token check raised. -/
def BatchEnds (repr : Json → Except PyError PyStr)
    (listGt : List Json → List Json → Except PyError Bool) (params : List (PyStr × Json)) (n : ℤ)
    (limit : Nat) (t : List Rpc.calls.Event) (r : Except SendError Bool) : Prop :=
  (∃ attempts, Attempted repr listGt limit attempts ∧
    attemptCalls t = attempts.flatMap (Attempt.events params n) ∧
    r = .ok (attempts.any fun a => succeeded repr listGt a.answer) ∧ Answered (t.map lifted)) ∨
  ¬ Answered (t.map lifted) ∧ ∃ e, r = .error e

/-- The attempts from number `attempt` on. -/
theorem runs_sendAttempts (hparams : (params.lookup (lit "attachments")).isSome = true) :
    ∀ {left attempt : Nat}, attempt + left = signalRateLimitMaxAttempts →
      ∀ {t : List Rpc.calls.Event} {r : Except SendError Bool},
        Runs (sendAttempts repr listGt params n attempt (left + 1)) t r →
          BatchEnds repr listGt params n (left + 1) t r := by
  intro left
  induction left with
  | zero =>
    intro attempt hlast t r h
    rcases runs_attempt hparams h with ⟨a, t', hcalls, hiff, hend⟩ | hraised
    · refine .inl ⟨[a], .last le_rfl (.inr rfl), ?_⟩
      -- The last attempt ends the loop, whatever came back.
      cases hend with
      | delivered hok hnil hanswered hr =>
        exact ⟨by rw [hcalls, hnil]; rfl, by simp [hr, hok], hiff.mpr hanswered⟩
      | exhausted hfailed hlast hnil hanswered hr =>
        exact ⟨by rw [hcalls, hnil]; rfl, by simp [hr, hfailed], hiff.mpr hanswered⟩
      | again hfailed hmore => omega
    · exact .inr hraised
  | succ left ih =>
    intro attempt hlast t r h
    rcases runs_attempt hparams h with ⟨a, t', hcalls, hiff, hend⟩ | hraised
    · -- Another attempt follows a failed one only.
      cases hend with
      | delivered hok hnil hanswered hr =>
        exact .inl ⟨[a], .last (Nat.le_add_left 1 _) (.inl hok), by rw [hcalls, hnil]; rfl,
          by simp [hr, hok], hiff.mpr hanswered⟩
      | exhausted hfailed hle => omega
      | again hfailed hmore u hnext hrest hanswered =>
        rcases ih (by omega) hnext with ⟨attempts, hattempted, hlater, hr, hclear⟩ | ⟨hraised, he⟩
        · refine .inl ⟨a :: attempts, hattempted.retry hfailed, ?_, by simp [hr, hfailed], ?_⟩
          · rw [hcalls, hrest, hlater]
            rfl
          · exact hiff.mpr (hanswered.mpr hclear)
        · exact .inr ⟨fun hall => hraised (hanswered.mp (hiff.mp hall)), he⟩
    · exact .inr hraised

section
variable {isWord : Nat → Bool} {settings : Settings} {chatId : PyStr}

/-- Parameters without attachments. -/
def Plain (params : List (PyStr × Json)) : Prop := params.lookup (lit "attachments") = none

/-- Parameters of both kinds without attachments. -/
theorem Plain.append {params params' : List (PyStr × Json)} (h : Plain params)
    (h' : Plain params') : Plain (params ++ params') := by
  rw [Plain, List.lookup_append, show params.lookup _ = none from h]
  exact h'

/-- The first call is a lookup of the recipient that raises. -/
def Unresolved (t : List Client.calls.Event) : Prop :=
  ∃ chatId e, t.head? = some ⟨.resolveRecipient chatId, (.error e : Except PyError Json)⟩

/-- A call of the send raises and is not caught. -/
def Broken (t : List Client.calls.Event) : Prop := ¬ Answered t ∨ Unresolved t

/-- Nothing has broken down before the first event. -/
theorem not_broken_nil : ¬ Broken [] := by
  rintro (hraised | ⟨_, _, ⟨⟩⟩)
  exact hraised answered_nil

/-- One more call breaks a run if it is refused, or if it is a first lookup that raises. -/
theorem broken_concat {t : List Client.calls.Event} {ev : Client.calls.Event} :
    Broken (t ++ [ev]) ↔ Broken t ∨ Refused ev ∨ (t = [] ∧ Unresolved [ev]) := by
  cases t with
  | nil =>
    rw [List.nil_append, or_iff_right not_broken_nil, and_iff_right rfl, Broken, answered_cons,
      not_and_or, not_not, or_iff_left (not_not.mpr answered_nil)]
  | cons first t =>
    have hhead : Unresolved (first :: t ++ [ev]) ↔ Unresolved (first :: t) := Iff.rfl
    have hanswered : ¬ Answered (first :: t ++ [ev]) ↔ ¬ Answered (first :: t) ∨ Refused ev := by
      rw [answered_append, not_and_or, answered_cons (t := []), not_and_or, not_not,
        or_iff_left (not_not.mpr answered_nil)]
    rw [Broken, Broken, hhead, hanswered, or_right_comm]
    simp

end

end SignalGateway.Proofs.Batches
