import Mathlib

/-!
# `Lib.Groups`: greedy grouping

`greedy fits xs` cuts a list into consecutive groups. It extends the open group while the
group fits, and starts a new one otherwise. If every stretch of a fitting group fits, no
other cut of the list into fitting groups has fewer groups (`length_greedy_le`).

The exchange argument is `length_greedyFrom_of_suffix`: with less in the open group, greedy
ends with at most as many groups, and it saves at most one.

`joinLength` is the length of a group of strings that are joined by a separator.

The theorems:

* `flatten_greedy`, `of_mem_greedy`: the groups are the list, and every one of them fits.
* `length_greedy_le`: greedy is at least as good as any other cut. The only condition is
  `Hereditary`: every stretch of a group that fits does.
* `hereditary_joinLength`: lists of strings whose join has a bounded length are such groups,
  since fewer strings have a shorter join (`joinLength_le`).
-/

set_option autoImplicit false

namespace Groups

variable {α : Type} (fits : List α → Prop) [DecidablePred fits]

/-- The groups of `xs` behind the open group `cur`. -/
def greedyFrom : List α → List α → List (List α)
  | cur, [] => if cur.isEmpty then [] else [cur]
  | cur, x :: xs =>
      if fits (cur ++ [x]) then greedyFrom (cur ++ [x]) xs else cur :: greedyFrom [x] xs

/-- The groups of `xs`. -/
def greedy (xs : List α) : List (List α) := greedyFrom fits [] xs

/-- The groups are a cut of the list. -/
theorem flatten_greedyFrom (xs : List α) :
    ∀ cur, (greedyFrom fits cur xs).flatten = cur ++ xs := by
  induction xs with
  | nil =>
    intro cur
    cases cur <;> simp [greedyFrom]
  | cons x xs ih =>
    intro cur
    rw [greedyFrom]
    split
    · rw [ih, List.append_assoc, List.singleton_append]
    · rw [List.flatten_cons, ih, List.singleton_append]

/-- The groups are the list, cut in pieces. -/
@[simp] theorem flatten_greedy (xs : List α) : (greedy fits xs).flatten = xs :=
  flatten_greedyFrom fits xs []

variable {fits}

/-- The groups fit and are not empty, if every element fits alone. -/
theorem of_mem_greedyFrom {xs : List α} (hone : ∀ x ∈ xs, fits [x]) :
    ∀ {cur : List α}, (cur ≠ [] → fits cur) → ∀ g ∈ greedyFrom fits cur xs, g ≠ [] ∧ fits g := by
  induction xs with
  | nil =>
    intro cur hcur g hg
    cases cur with
    | nil => cases hg
    | cons c cur =>
      rw [List.mem_singleton.mp hg]
      exact ⟨List.cons_ne_nil _ _, hcur (List.cons_ne_nil _ _)⟩
  | cons x xs ih =>
    intro cur hcur g hg
    have hrest : ∀ x ∈ xs, fits [x] := fun y hy => hone y (List.mem_cons_of_mem _ hy)
    rw [greedyFrom] at hg
    split at hg
    · rename_i hfits
      exact ih hrest (fun _ => hfits) g hg
    · rename_i hfull
      rcases List.mem_cons.mp hg with rfl | hg
      · -- The open group is closed because `x` is too much for it, and `x` alone is not.
        have hne : g ≠ [] := by
          rintro rfl
          exact hfull (hone x List.mem_cons_self)
        exact ⟨hne, hcur hne⟩
      · exact ih hrest (fun _ => hone x List.mem_cons_self) g hg

/-- Every group fits and holds something. -/
theorem of_mem_greedy {xs : List α} (hone : ∀ x ∈ xs, fits [x]) :
    ∀ g ∈ greedy fits xs, g ≠ [] ∧ fits g :=
  of_mem_greedyFrom hone fun h => absurd rfl h

/-! ### Greedy is optimal -/

/-- Every stretch of a group that fits does. -/
def Hereditary (fits : List α → Prop) : Prop := ∀ {a b : List α}, a <:+: b → fits b → fits a

/-- With less in the open group greedy ends with at most as many groups. It saves at most
one. -/
theorem length_greedyFrom_of_suffix (h : Hereditary fits) (xs : List α) :
    ∀ {less cur : List α}, less <:+ cur →
      (greedyFrom fits less xs).length ≤ (greedyFrom fits cur xs).length ∧
        (greedyFrom fits cur xs).length ≤ (greedyFrom fits less xs).length + 1 := by
  induction xs with
  | nil =>
    intro less cur hsuffix
    cases less with
    | nil => cases cur <;> simp [greedyFrom]
    | cons c less =>
      cases cur with
      | nil => cases List.suffix_nil.mp hsuffix
      | cons d cur => simp [greedyFrom]
  | cons x xs ih =>
    intro less cur hsuffix
    obtain ⟨front, rfl⟩ := hsuffix
    have hlonger : less ++ [x] <:+ front ++ less ++ [x] := ⟨front, by rw [List.append_assoc]⟩
    rw [greedyFrom, greedyFrom]
    by_cases hfits : fits (front ++ less ++ [x])
    · -- Both groups take `x`.
      rw [if_pos hfits, if_pos (h hlonger.isInfix hfits)]
      exact ih hlonger
    · rw [if_neg hfits]
      by_cases hless : fits (less ++ [x])
      · -- Only the shorter group takes `x`, and is now ahead of the new group `[x]`.
        rw [if_pos hless, List.length_cons]
        have hahead := ih (List.suffix_append less [x])
        exact ⟨hahead.2, Nat.add_le_add_right hahead.1 1⟩
      · -- Both start a new group.
        rw [if_neg hless, List.length_cons, List.length_cons]
        omega

/-- Greedy takes a whole group that fits. -/
theorem greedyFrom_append (h : Hereditary fits) {g : List α} (ys : List α) :
    ∀ {cur : List α}, fits (cur ++ g) →
      greedyFrom fits cur (g ++ ys) = greedyFrom fits (cur ++ g) ys := by
  induction g with
  | nil =>
    intro cur _
    rw [List.append_nil, List.nil_append]
  | cons x g ih =>
    intro cur hfits
    have hsplit : cur ++ x :: g = cur ++ [x] ++ g := by simp
    have hprefix : cur ++ [x] <:+: cur ++ x :: g := ⟨[], g, by simp⟩
    rw [List.cons_append, greedyFrom, if_pos (h hprefix hfits), hsplit]
    exact ih (hsplit ▸ hfits)

/-- No cut of a list into groups that fit has fewer groups than greedy. -/
theorem length_greedy_le (h : Hereditary fits) {gs : List (List α)} (hgs : ∀ g ∈ gs, fits g) :
    (greedy fits gs.flatten).length ≤ gs.length := by
  induction gs with
  | nil => simp [greedy, greedyFrom]
  | cons g gs ih =>
    have hrest := ih fun g' hg' => hgs g' (List.mem_cons_of_mem _ hg')
    have hone := (length_greedyFrom_of_suffix h gs.flatten g.nil_suffix).2
    have htake : greedyFrom fits [] (g ++ gs.flatten) = greedyFrom fits g gs.flatten :=
      greedyFrom_append h gs.flatten (hgs g List.mem_cons_self)
    rw [List.flatten_cons, List.length_cons]
    calc (greedy fits (g ++ gs.flatten)).length
        = (greedyFrom fits g gs.flatten).length := congrArg List.length htake
      _ ≤ (greedy fits gs.flatten).length + 1 := hone
      _ ≤ gs.length + 1 := Nat.add_le_add_right hrest 1

/-! ### Groups of strings -/

/-- The length of some strings joined by a separator of length `k`. -/
def joinLength (k : Nat) (ss : List (List α)) : Nat :=
  (ss.map List.length).sum + k * (ss.length - 1)

/-- The length of the joined pieces. -/
theorem length_intercalate (sep : List α) (ss : List (List α)) :
    (sep.intercalate ss).length = joinLength sep.length ss := by
  induction ss with
  | nil => rfl
  | cons s ss ih =>
    cases ss with
    | nil => simp [joinLength]
    | cons s' ss =>
      rw [List.intercalate_cons_cons, List.length_append, List.length_append, ih]
      simp only [joinLength, List.map_cons, List.sum_cons, List.length_cons, Nat.add_sub_cancel,
        Nat.mul_succ]
      omega

/-- Fewer and shorter strings have a shorter join. -/
theorem joinLength_le {k : Nat} {ss ts : List (List α)}
    (hsum : (ss.map List.length).sum ≤ (ts.map List.length).sum) (hlen : ss.length ≤ ts.length) :
    joinLength k ss ≤ joinLength k ts :=
  Nat.add_le_add hsum (Nat.mul_le_mul_left k (Nat.sub_le_sub_right hlen 1))

/-- Fewer pieces join to less. -/
theorem joinLength_le_of_sublist (k : Nat) {ss ts : List (List α)} (h : ss.Sublist ts) :
    joinLength k ss ≤ joinLength k ts :=
  joinLength_le ((h.map _).sum_le_sum fun _ _ => Nat.zero_le _) h.length_le

/-- The groups of strings whose join is at most `n` long. -/
theorem hereditary_joinLength (k n : Nat) :
    Hereditary fun ss : List (List α) => joinLength k ss ≤ n :=
  fun hinfix h => (joinLength_le_of_sublist k hinfix.sublist).trans h

end Groups
