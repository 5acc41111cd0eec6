import SignalGateway.Lib.Regex

/-!
# `Lib.RegexGroups`: what a match holds outside its groups

`Re.OutsideIn p r` says that `r` consumes only characters of the class `p` outside its
groups, and `outside_of_mem_outcomes` carries this over to every outcome. `Re.groupCount`
counts the groups that every way through a pattern captures, and `Re.LongGroups` bounds their
lengths from below.

The classes are computed from the pattern, so for a concrete pattern they are decided. The
theorems read a match off them:

* `outside_of_mem_outcomes`: an induction over the pattern. Around its groups a match holds only
  characters of the class.
* `matchAt_one_group`: for a pattern with one group the match is the group between two stretches
  of the class. Such a pattern can be stripped by keeping its group.
* `le_of_mem_groups`: the groups of a match have the least length the pattern asks for.
* `outcomes_lazy_group_seq`: a lazy group ends at the first position where the rest of the
  pattern matches.
-/

set_option autoImplicit false

namespace Regex

variable {σ : Type}

namespace Re

/-- The characters consumed outside the groups are of the class `p`. -/
def OutsideIn (p : σ → Bool) : Re σ → Prop
  | eps => True
  | one q => ∀ c, q c = true → p c = true
  | rep _ _ _ q => ∀ c, q c = true → p c = true
  | seq a b => a.OutsideIn p ∧ b.OutsideIn p
  | alt a b => a.OutsideIn p ∧ b.OutsideIn p
  | group _ => True
  | lineStart _ => True
  | atEnd _ => True
  | notBehind _ => True
  | notAhead _ => True

/-- The number of groups, read off the left branches. -/
def groupCount : Re σ → Nat
  | seq a b => a.groupCount + b.groupCount
  | alt a _ => a.groupCount
  | group a => a.groupCount + 1
  | _ => 0

/-- Every group captures at least `k` characters. -/
def LongGroups (k : Nat) : Re σ → Prop
  | seq a b => a.LongGroups k ∧ b.LongGroups k
  | alt a b => a.LongGroups k ∧ b.LongGroups k
  | group a => k ≤ a.minLen ∧ a.LongGroups k
  | _ => True

/-- The branches of every choice have the same number of groups. -/
def EvenGroups : Re σ → Prop
  | seq a b => a.EvenGroups ∧ b.EvenGroups
  | alt a b => a.EvenGroups ∧ b.EvenGroups ∧ a.groupCount = b.groupCount
  | group a => a.EvenGroups
  | _ => True

end Re

/-- Every outcome captures `groupCount` groups. -/
theorem length_groups (t : List σ) (r : Re σ) (hr : r.EvenGroups) :
    ∀ {i : Nat} {o : Nat × List (Nat × Nat)}, o ∈ outcomes t r i →
      o.2.length = r.groupCount := by
  induction r with
  | eps =>
    intro i o ho
    simp only [outcomes, List.mem_singleton] at ho
    rw [ho]
    rfl
  | one p | lineStart nl | atEnd nl | notBehind p | notAhead p =>
    intro i o ho
    simp only [outcomes] at ho
    split at ho <;> simp only [List.mem_singleton, List.not_mem_nil] at ho
    rw [ho]
    rfl
  | rep greedy lo hi p =>
    intro i o ho
    simp only [outcomes, List.mem_map] at ho
    obtain ⟨k, -, rfl⟩ := ho
    rfl
  | seq a b iha ihb =>
    intro i o ho
    simp only [outcomes, List.mem_flatMap, List.mem_map] at ho
    obtain ⟨oa, hoa, ob, hob, rfl⟩ := ho
    simp only [List.length_append, Re.groupCount]
    rw [iha hr.1 hoa, ihb hr.2 hob]
  | alt a b iha ihb =>
    intro i o ho
    obtain ⟨ha, hb, hcount⟩ := hr
    rcases List.mem_append.mp ho with ho | ho
    · exact iha ha ho
    · -- `groupCount` reads the left branch, which has as many groups.
      rw [ihb hb ho, ← hcount]
      rfl
  | group a iha =>
    intro i o ho
    simp only [outcomes, List.mem_map] at ho
    obtain ⟨oa, hoa, rfl⟩ := ho
    simp only [List.length_cons, Re.groupCount]
    rw [iha hr hoa]

/-- A consumed character outside the groups is of the class. -/
theorem outside_of_mem_outcomes (t : List σ) {p : σ → Bool} (r : Re σ) (hr : r.OutsideIn p) :
    ∀ {i : Nat} {o : Nat × List (Nat × Nat)}, i ≤ t.length → o ∈ outcomes t r i →
      ∀ k, i ≤ k → k < o.1 → (∀ g ∈ o.2, ¬ (g.1 ≤ k ∧ k < g.2)) → (t[k]?).any p = true := by
  -- The class of a leaf is contained in `p`.
  have hany : ∀ {q : σ → Bool} {k : Nat}, (∀ c, q c = true → p c = true) →
      (t[k]?).any q = true → (t[k]?).any p = true := by
    intro q k hq hk
    obtain ⟨c, hc, hqc⟩ := (Option.any_eq_true _ _).mp hk
    exact (Option.any_eq_true _ _).mpr ⟨c, hc, hq c hqc⟩
  induction r with
  | eps | lineStart nl | atEnd nl | notBehind q | notAhead q =>
    intro i o _ ho k h1 h2
    have : o = (i, []) := by
      simp only [outcomes] at ho
      first
        | exact List.mem_singleton.mp ho
        | split at ho <;> simp_all
    rw [this] at h2
    omega
  | one q =>
    intro i o _ ho k h1 h2 _
    simp only [outcomes] at ho
    split at ho
    · rename_i hq
      rw [List.mem_singleton.mp ho] at h2
      have hki : k = i := by
        simp only at h2
        omega
      rw [hki]
      exact hany hr hq
    · simp at ho
  | rep greedy lo hi q =>
    intro i o _ ho k h1 h2 _
    simp only [outcomes, List.mem_map] at ho
    obtain ⟨n, hn, rfl⟩ := ho
    have hle : n ≤ runLength q t i := by
      have := (mem_counts.mp hn).2
      cases hi with
      | none => simpa using this
      | some h =>
        simp only at this
        omega
    have hrun := runLength_spec q t i (k - i) (by simp only at h2; omega)
    rw [Nat.add_sub_cancel' h1] at hrun
    exact hany hr hrun
  | seq a b iha ihb =>
    intro i o hi ho k h1 h2 hout
    simp only [outcomes, List.mem_flatMap, List.mem_map] at ho
    obtain ⟨oa, hoa, ob, hob, rfl⟩ := ho
    by_cases hk : k < oa.1
    · exact iha hr.1 hi hoa k h1 hk fun g hg => hout g (List.mem_append_left _ hg)
    · exact ihb hr.2 (outcomes_spec t a hi hoa).2.1 hob k (by omega) h2
        fun g hg => hout g (List.mem_append_right _ hg)
  | alt a b iha ihb =>
    intro i o hi ho k h1 h2 hout
    rcases List.mem_append.mp ho with ho | ho
    · exact iha hr.1 hi ho k h1 h2 hout
    · exact ihb hr.2 hi ho k h1 h2 hout
  | group a iha =>
    intro i o hi ho k h1 h2 hout
    simp only [outcomes, List.mem_map] at ho
    obtain ⟨oa, hoa, rfl⟩ := ho
    -- The group covers everything it consumes.
    exact absurd ⟨h1, h2⟩ (hout (i, oa.1) List.mem_cons_self)

/-- The captured spans are as long as the groups say. -/
theorem le_of_mem_outcomes (t : List σ) {k : Nat} (r : Re σ) (hr : r.LongGroups k) :
    ∀ {i : Nat} {o : Nat × List (Nat × Nat)}, i ≤ t.length → o ∈ outcomes t r i →
      ∀ g ∈ o.2, g.1 + k ≤ g.2 := by
  induction r with
  | eps =>
    intro i o _ ho
    simp only [outcomes, List.mem_singleton] at ho
    simp [ho]
  | one p | lineStart nl | atEnd nl | notBehind p | notAhead p =>
    intro i o _ ho
    simp only [outcomes] at ho
    split at ho <;> simp_all
  | rep greedy lo hi p =>
    intro i o _ ho
    simp only [outcomes, List.mem_map] at ho
    obtain ⟨n, -, rfl⟩ := ho
    simp
  | seq a b iha ihb =>
    intro i o hi ho g hg
    simp only [outcomes, List.mem_flatMap, List.mem_map] at ho
    obtain ⟨oa, hoa, ob, hob, rfl⟩ := ho
    rcases List.mem_append.mp hg with hg | hg
    · exact iha hr.1 hi hoa g hg
    · exact ihb hr.2 (outcomes_spec t a hi hoa).2.1 hob g hg
  | alt a b iha ihb =>
    intro i o hi ho
    rcases List.mem_append.mp ho with ho | ho
    · exact iha hr.1 hi ho
    · exact ihb hr.2 hi ho
  | group a iha =>
    intro i o hi ho g hg
    simp only [outcomes, List.mem_map] at ho
    obtain ⟨oa, hoa, rfl⟩ := ho
    rcases List.mem_cons.mp hg with rfl | hg
    · -- The span of the group itself is what its pattern consumed.
      have hmin := (outcomes_spec t a hi hoa).1
      have hk := hr.1
      show i + k ≤ oa.1
      omega
    · exact iha hr.2 hi hoa g hg

/-- Every group of a match has at least `k` characters. -/
theorem le_of_mem_groups {t : List σ} {k : Nat} {r : Re σ} (hr : r.LongGroups k) {i : Nat}
    {m : Match} (hi : i ≤ t.length) (h : matchAt t r i = some m) :
    ∀ g ∈ m.groups, g.1 + k ≤ g.2 := by
  simp only [matchAt, Option.map_eq_some_iff] at h
  obtain ⟨o, ho, rfl⟩ := h
  exact le_of_mem_outcomes t r hr hi (List.mem_of_mem_head? ho)

/-- A match of a pattern with one group: the group lies inside it, and around the group it
holds characters of the class. -/
theorem matchAt_one_group {t : List σ} {r : Re σ} {p : σ → Bool} {i : Nat} {m : Match}
    (hi : i ≤ t.length) (heven : r.EvenGroups) (hcount : r.groupCount = 1)
    (hout : r.OutsideIn p) (h : matchAt t r i = some m) :
    ∃ g, m.groups = [g] ∧ m.start ≤ g.1 ∧ g.1 ≤ g.2 ∧ g.2 ≤ m.stop ∧
      ∀ k, m.start ≤ k → k < m.stop → ¬ (g.1 ≤ k ∧ k < g.2) → (t[k]?).any p = true := by
  obtain ⟨hstart, -, -, hspans⟩ := matchAt_spec hi h
  simp only [matchAt, Option.map_eq_some_iff] at h
  obtain ⟨o, ho, rfl⟩ := h
  have ho := List.mem_of_mem_head? ho
  have hlen := length_groups t r heven ho
  rw [hcount] at hlen
  obtain ⟨g, hg⟩ := List.length_eq_one_iff.mp hlen
  obtain ⟨h1, h2, h3⟩ := hspans g (by simp [hg])
  refine ⟨g, hg, h1, h2, h3, ?_⟩
  intro k hk1 hk2 hk
  refine outside_of_mem_outcomes t r hout hi ho k hk1 hk2 ?_
  intro g' hg'
  rw [hg, List.mem_singleton] at hg'
  rw [hg']
  exact hk

/-- A lazy group in front of a pattern `b`: the group ends at the first position where `b`
has an outcome. -/
theorem outcomes_lazy_group_seq {t : List σ} {p : σ → Bool} {b : Re σ} {i n : Nat}
    {o : Nat × List (Nat × Nat)} {rest : List (Nat × List (Nat × Nat))}
    (hn : n ≤ runLength p t i) (hshort : ∀ k, k < n → outcomes t b (i + k) = [])
    (hb : outcomes t b (i + n) = o :: rest) :
    ∃ rest', outcomes t (.seq (.group (.rep false 0 none p)) b) i
      = (o.1, (i, i + n) :: o.2) :: rest' := by
  have hcounts : counts false 0 (runLength p t i)
      = List.range n ++ n :: (List.range (runLength p t i - n)).map (n + 1 + ·) := by
    have hlen : runLength p t i + 1 = n + (1 + (runLength p t i - n)) := by omega
    simp only [counts, Bool.false_eq_true, if_false, Nat.sub_zero, Nat.zero_add, List.map_id']
    rw [hlen, List.range_add, Nat.add_comm 1, List.range_succ_eq_map]
    simp [Function.comp_def, Nat.add_assoc, Nat.add_comm 1]
  -- The shorter groups have no continuation.
  have hnil : ((List.range n).flatMap fun k =>
      (outcomes t b (i + k)).map fun ob => (ob.1, (i, i + k) :: ob.2)) = [] := by
    rw [List.flatMap_eq_nil_iff]
    intro k hk
    rw [hshort k (List.mem_range.mp hk)]
    rfl
  have hout : outcomes t (.seq (.group (.rep false 0 none p)) b) i
      = (counts false 0 (runLength p t i)).flatMap fun k =>
          (outcomes t b (i + k)).map fun ob => (ob.1, (i, i + k) :: ob.2) := by
    simp [outcomes, List.flatMap_map]
  rw [hout, hcounts, List.flatMap_append, hnil, List.nil_append, List.flatMap_cons, hb]
  exact ⟨_, rfl⟩

end Regex
