import Mathlib

/-!
# `Lib.TokenBucket`: what a lazily refilled token bucket can hand out

A bucket gains `rate` tokens per unit of time, up to its capacity. It is refilled lazily:
it stores the tokens it had at time `last`, and `Bucket.level b t` are the tokens it has at
time `t`.

A `Chain` is any sequence of operations on a bucket. The only condition on an operation at
time `t` is that it grants no more than it takes out of the level at `t`. So an operation can
also drop tokens, change the rate or restart the clock. `granted_le` is the bound: in a
window in which the rate is at most `r`, the grants sum up to at most the capacity plus `r`
times the length of the window.

The proof of `granted_le` goes over the chain. Up to the start of the window nothing is counted.
From there `Bucket.Valid.level_le_add` bounds what a stretch of time adds, and the grant of an
operation is taken out of the level. `Chain.valid_of_mem` gives the bounds on the tokens
themselves: at every operation they are between zero and the capacity.

`Bucket.le_level_of_wait` is the other direction, for a caller that waits: after the missing
tokens divided by the rate they are there, if nobody else has taken them.
-/

set_option autoImplicit false

namespace TokenBucket

variable {K : Type} [Field K] [LinearOrder K]

/-- The state of a bucket. -/
structure Bucket (K : Type) where
  capacity : K
  tokens : K
  rate : K
  last : K

/-- The tokens at time `t`, not before `last`. -/
def Bucket.level (b : Bucket K) (t : K) : K :=
  min b.capacity (b.tokens + (t - b.last) * b.rate)

/-- A bucket that can be met at time `t`. -/
structure Bucket.Valid (b : Bucket K) (t : K) : Prop where
  tokens_nonneg : 0 ≤ b.tokens
  tokens_le : b.tokens ≤ b.capacity
  rate_nonneg : 0 ≤ b.rate
  last_le : b.last ≤ t

section
variable {b : Bucket K} {t t' : K}

/-- A bucket never holds more than its capacity. -/
theorem Bucket.level_le_capacity : b.level t ≤ b.capacity := min_le_left _ _

/-- A valid bucket stays valid as time passes. -/
theorem Bucket.Valid.mono (h : b.Valid t) (hle : t ≤ t') : b.Valid t' :=
  ⟨h.tokens_nonneg, h.tokens_le, h.rate_nonneg, h.last_le.trans hle⟩

/-- At the time of its tokens, a bucket has its tokens. -/
theorem Bucket.Valid.level_last (h : b.Valid b.last) : b.level b.last = b.tokens := by
  rw [Bucket.level, sub_self, zero_mul, add_zero, min_eq_right h.tokens_le]

end

/-! ### Chains of operations -/

/-- An operation: its time, what it granted, and the bucket it left. -/
structure Entry (K : Type) where
  time : K
  granted : K
  after : Bucket K

/-- Operations on the bucket `b`, last touched at time `t`. -/
def Chain : Bucket K → K → List (Entry K) → Prop
  | _, _, [] => True
  | b, t, e :: es =>
      t ≤ e.time ∧ e.after.Valid e.time ∧ e.after.capacity = b.capacity ∧
        e.granted + e.after.level e.time ≤ b.level e.time ∧ Chain e.after e.time es

/-- The rate in effect at time `t`. -/
def rateAt (b : Bucket K) : List (Entry K) → K → K
  | [], _ => b.rate
  | e :: es, t => if e.time ≤ t then rateAt e.after es t else b.rate

/-- What was granted from time `t₁` to time `t₂`. -/
def grantedIn (t₁ t₂ : K) : List (Entry K) → K
  | [] => 0
  | e :: es => (if t₁ ≤ e.time ∧ e.time ≤ t₂ then e.granted else 0) + grantedIn t₁ t₂ es

/-- Every bucket of a chain is valid and has the capacity of the first. -/
theorem Chain.valid_of_mem {b : Bucket K} {t : K} {es : List (Entry K)} (h : Chain b t es) :
    ∀ e ∈ es, e.after.Valid e.time ∧ e.after.capacity = b.capacity := by
  induction es generalizing b t with
  | nil => simp
  | cons e es ih =>
    obtain ⟨-, hvalid, hcap, -, hrest⟩ := h
    intro e' he'
    rcases List.mem_cons.mp he' with rfl | he'
    · exact ⟨hvalid, hcap⟩
    · rw [← hcap]
      exact ih hrest e' he'

/-- The rate of a chain is never negative. -/
theorem rateAt_nonneg {b : Bucket K} {t : K} {es : List (Entry K)} (hb : b.Valid t)
    (hes : Chain b t es) (τ : K) : 0 ≤ rateAt b es τ := by
  induction es generalizing b t with
  | nil => exact hb.rate_nonneg
  | cons e es ih =>
    obtain ⟨-, hvalid, -, -, hrest⟩ := hes
    rw [rateAt]
    split
    · exact ih hvalid hrest
    · exact hb.rate_nonneg

/-- Nothing is granted in a window that has passed. -/
theorem grantedIn_eq_zero {b : Bucket K} {t t₁ t₂ : K} {es : List (Entry K)}
    (hes : Chain b t es) (hlt : t₂ < t) : grantedIn t₁ t₂ es = 0 := by
  induction es generalizing b t with
  | nil => rfl
  | cons e es ih =>
    obtain ⟨htime, -, -, -, hrest⟩ := hes
    have hpast : t₂ < e.time := hlt.trans_le htime
    rw [grantedIn, if_neg (fun h => absurd h.2 (not_le.mpr hpast)), ih hrest hpast, add_zero]

/-! ### The bound -/

section
variable [IsStrictOrderedRing K]

/-- Time only adds tokens. -/
theorem Bucket.Valid.tokens_le_level {b : Bucket K} {t : K} (h : b.Valid t) :
    b.tokens ≤ b.level t := by
  have hgain : 0 ≤ (t - b.last) * b.rate :=
    mul_nonneg (sub_nonneg.mpr h.last_le) h.rate_nonneg
  exact le_min h.tokens_le (le_add_of_nonneg_right hgain)

/-- A valid bucket owes nothing. -/
theorem Bucket.Valid.level_nonneg {b : Bucket K} {t : K} (h : b.Valid t) : 0 ≤ b.level t :=
  h.tokens_nonneg.trans h.tokens_le_level

/-- In a stretch of time a bucket gains at most its rate times the length. -/
theorem Bucket.Valid.level_le_add {b : Bucket K} {t t' : K} (h : b.Valid t) (hle : t ≤ t') :
    b.level t' ≤ b.level t + (t' - t) * b.rate := by
  have hgain : 0 ≤ (t' - t) * b.rate := mul_nonneg (sub_nonneg.mpr hle) h.rate_nonneg
  have hsplit : b.tokens + (t' - b.last) * b.rate
      = b.tokens + (t - b.last) * b.rate + (t' - t) * b.rate := by ring
  rw [Bucket.level, hsplit, Bucket.level, ← min_add_add_right]
  exact min_le_min (le_add_of_nonneg_right hgain) le_rfl

/-- After the time that the rate needs for the missing tokens, `n` tokens are there. -/
theorem Bucket.le_level_of_wait {b : Bucket K} {t t' n : K} (hrate : 0 < b.rate)
    (hn : n ≤ b.capacity) (hwait : t + (n - b.level t) / b.rate ≤ t') : n ≤ b.level t' := by
  have hgain : n - b.level t ≤ (t' - t) * b.rate := by
    rw [← div_le_iff₀ hrate]
    linarith
  have hlevel : b.level t ≤ b.tokens + (t - b.last) * b.rate := min_le_right _ _
  refine le_min hn ?_
  calc n ≤ b.level t + (t' - t) * b.rate := by linarith
    _ ≤ b.tokens + (t - b.last) * b.rate + (t' - t) * b.rate := by linarith
    _ = b.tokens + (t' - b.last) * b.rate := by ring

/-- The bound inside the window: the level at `t` and the gain up to `t₂`. -/
theorem granted_le_level {b : Bucket K} {t t₁ t₂ r : K} {es : List (Entry K)}
    (hb : b.Valid t) (hes : Chain b t es) (h₁ : t₁ ≤ t) (h₂ : t ≤ t₂) (hr : 0 ≤ r)
    (hrate : ∀ τ, t ≤ τ → τ ≤ t₂ → rateAt b es τ ≤ r) :
    grantedIn t₁ t₂ es ≤ b.level t + r * (t₂ - t) := by
  induction es generalizing b t with
  | nil => exact add_nonneg hb.level_nonneg (mul_nonneg hr (sub_nonneg.mpr h₂))
  | cons e es ih =>
    obtain ⟨htime, hvalid, -, hgrant, hrest⟩ := hes
    rw [grantedIn]
    by_cases he : e.time ≤ t₂
    · have hlater := ih hvalid hrest (h₁.trans htime) he ?_
      · -- Up to the operation the bucket gains at most `r` per unit of time.
        have hgain : b.level e.time ≤ b.level t + r * (e.time - t) := by
          rcases htime.eq_or_lt with heq | hlt
          · rw [heq, sub_self, mul_zero, add_zero]
          · have hbr : b.rate ≤ r := by
              have := hrate t le_rfl h₂
              rwa [rateAt, if_neg (not_le.mpr hlt)] at this
            calc b.level e.time ≤ b.level t + (e.time - t) * b.rate :=
                  hb.level_le_add htime
              _ ≤ b.level t + r * (e.time - t) := by
                  rw [mul_comm r]
                  have := mul_le_mul_of_nonneg_left hbr (sub_nonneg.mpr htime)
                  linarith
        rw [if_pos ⟨h₁.trans htime, he⟩]
        calc e.granted + grantedIn t₁ t₂ es
            ≤ e.granted + (e.after.level e.time + r * (t₂ - e.time)) := by linarith
          _ ≤ b.level e.time + r * (t₂ - e.time) := by linarith
          _ ≤ b.level t + r * (e.time - t) + r * (t₂ - e.time) := by linarith
          _ = b.level t + r * (t₂ - t) := by ring
      · intro τ hτ hτ₂
        have := hrate τ (htime.trans hτ) hτ₂
        rwa [rateAt, if_pos hτ] at this
    · have hpast : t₂ < e.time := not_le.mp he
      rw [if_neg (fun h => he h.2), grantedIn_eq_zero hrest hpast, add_zero]
      exact add_nonneg hb.level_nonneg (mul_nonneg hr (sub_nonneg.mpr h₂))

/-- The bound on the grants of a window: the capacity, and the largest rate in the window
times its length. -/
theorem granted_le {b : Bucket K} {t t₁ t₂ r : K} {es : List (Entry K)} (hb : b.Valid t)
    (hes : Chain b t es) (h : t₁ ≤ t₂)
    (hrate : ∀ τ, t₁ ≤ τ → τ ≤ t₂ → rateAt b es τ ≤ r) :
    grantedIn t₁ t₂ es ≤ b.capacity + r * (t₂ - t₁) := by
  have hr : 0 ≤ r := (rateAt_nonneg hb hes t₁).trans (hrate t₁ le_rfl h)
  have hcap : 0 ≤ b.capacity := hb.tokens_nonneg.trans hb.tokens_le
  have hwindow : 0 ≤ r * (t₂ - t₁) := mul_nonneg hr (sub_nonneg.mpr h)
  induction es generalizing b t with
  | nil => exact add_nonneg hcap hwindow
  | cons e es ih =>
    obtain ⟨htime, hvalid, hcapacity, hgrant, hrest⟩ := hes
    rw [grantedIn]
    by_cases h₁ : t₁ ≤ e.time
    · by_cases h₂ : e.time ≤ t₂
      · -- The first operation of the window meets a level of at most the capacity.
        have hlater := granted_le_level hvalid hrest h₁ h₂ hr ?_
        · have hlevel : b.level e.time ≤ b.capacity := Bucket.level_le_capacity
          have hshort : r * (t₂ - e.time) ≤ r * (t₂ - t₁) :=
            mul_le_mul_of_nonneg_left (by linarith) hr
          rw [if_pos ⟨h₁, h₂⟩]
          linarith
        · intro τ hτ hτ₂
          have := hrate τ (h₁.trans hτ) hτ₂
          rwa [rateAt, if_pos hτ] at this
      · rw [if_neg (fun hin => h₂ hin.2), grantedIn_eq_zero hrest (not_le.mp h₂), add_zero]
        exact add_nonneg hcap hwindow
    · rw [if_neg (fun hin => h₁ hin.1), zero_add, ← hcapacity]
      refine ih hvalid hrest ?_ (by rwa [hcapacity])
      intro τ hτ hτ₂
      have := hrate τ hτ hτ₂
      rwa [rateAt, if_pos ((not_le.mp h₁).le.trans hτ)] at this

end

end TokenBucket
