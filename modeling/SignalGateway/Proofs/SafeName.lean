import SignalGateway.Download

/-!
# `SignalGateway.Proofs.SafeName`: names that stay in their directory

Every name that `_safe_filename` and `_target_name` return is a `SafeName`, whatever the URL
and the declared file name are. The delivery writes to `dir ++ [name]`, and `joinPath` is the
join of `pathlib`. For a safe name they agree (`SafeName.joinPath_eq`).

The one interesting case is a name of dots only. `stripDots` leaves nothing of it, and a default
name is taken. `head_stripDots` says that what is left of any other name starts with another
character.
-/

set_option autoImplicit false

namespace SignalGateway.Proofs.Delivery

open SignalGateway.Delivery PyChar

/-- A file name of harmless characters that is neither `.` nor `..`. -/
structure SafeName (name : PyStr) : Prop where
  ne_nil : name ≠ []
  ne_dot : name ≠ lit "."
  ne_dotDot : name ≠ lit ".."
  safe : ∀ c ∈ name, isSafeChr c = true

/-- `dir / name` of `pathlib`. The empty components and the dots are dropped, and an absolute
name leaves the workspace. -/
def joinPath (dir : Path) (name : PyStr) : Option Path :=
  if name.head?.any (isChr '/') then none
  else some (dir ++ (name.splitOnP (isChr '/')).filter fun c => !c.isEmpty && c ≠ lit ".")

/-- A slash is not safe. -/
theorem not_slash_of_safe {c : CodePoint} (h : isSafeChr c = true) : isChr '/' c = false := by
  cases hslash : isChr '/' c with
  | false => rfl
  | true =>
    have hc : c = ofChar '/' := Fin.ext (beq_iff_eq.mp hslash)
    rw [hc] at h
    exact absurd h (by decide)

namespace SafeName

variable {name : PyStr}

/-- A name that does not start with a dot is neither `.` nor `..`. -/
theorem of_head {c : CodePoint} (hhead : name.head? = some c) (hdot : isChr '.' c = false)
    (hsafe : ∀ c ∈ name, isSafeChr c = true) : SafeName name where
  ne_nil h := by
    rw [h] at hhead
    cases hhead
  ne_dot h := by
    rw [h] at hhead
    cases hhead
    exact absurd hdot (by decide)
  ne_dotDot h := by
    rw [h] at hhead
    cases hhead
    exact absurd hdot (by decide)
  safe := hsafe

/-- A safe name is one component of a path. -/
theorem splitOnP_eq (h : SafeName name) : name.splitOnP (isChr '/') = [name] :=
  List.splitOnP_eq_singleton fun c hc => not_slash_of_safe (h.safe c hc)

/-- A safe name names a direct child. -/
theorem joinPath_eq (h : SafeName name) (dir : Path) :
    joinPath dir name = some (dir ++ [name]) := by
  have hrelative : name.head?.any (isChr '/') = false := by
    rw [Option.any_eq_false_iff_get]
    intro hsome
    exact not_slash_of_safe (h.safe _ (List.mem_of_mem_head? (Option.get_mem hsome)))
  have hkept : (!name.isEmpty && decide (name ≠ lit ".")) = true := by
    rw [Bool.and_eq_true, Bool.not_eq_true', decide_eq_true_eq, List.isEmpty_eq_false_iff]
    exact ⟨h.ne_nil, h.ne_dot⟩
  rw [joinPath, hrelative, if_neg Bool.false_ne_true, h.splitOnP_eq]
  exact congrArg (fun names => some (dir ++ names)) (List.filter_cons_of_pos hkept)

end SafeName

/-! ### The names of the delivery -/

/-- What is stripped does not start with a dot. -/
theorem head_stripDots {s : PyStr} {c : CodePoint} (h : (stripDots s).head? = some c) :
    isChr '.' c = false := by
  have hfront : stripDots s <+: s.dropWhile fun c => isChr '.' c || isChr '_' c :=
    List.rdropWhile_prefix _ _
  obtain ⟨rest, hrest⟩ := hfront
  have hhead : (s.dropWhile fun c => isChr '.' c || isChr '_' c).head? = some c := by
    rw [← hrest, List.head?_append, h]
    rfl
  have hnot := List.head?_dropWhile_not (fun c => isChr '.' c || isChr '_' c) s
  rw [hhead] at hnot
  simp only [Bool.or_eq_false_iff] at hnot
  exact hnot.1

/-- Stripping dots adds no character. -/
theorem stripDots_subset (s : PyStr) : stripDots s ⊆ s := fun _ hc =>
  (List.dropWhile_suffix _).subset ((List.rdropWhile_prefix _ _).subset hc)

/-- Every file name is made safe. -/
theorem safeName_safeFilename (name : PyStr) : SafeName (safeFilename name) := by
  unfold safeFilename
  dsimp only
  split
  · exact .of_head rfl (by decide) (List.all_eq_true.mp (by decide))
  · next hcleaned =>
    obtain ⟨c, rest, heq⟩ := List.exists_cons_of_ne_nil (mt List.isEmpty_iff.mpr hcleaned)
    have hhead := congrArg List.head? heq
    refine .of_head hhead (head_stripDots hhead) fun c hc => ?_
    -- The filter leaves harmless characters, and the strip only removes some.
    obtain ⟨d, -, rfl⟩ := List.mem_map.mp (stripDots_subset _ hc)
    split
    · assumption
    · decide

/-- The name of a download is safe if its fallback suffix is. -/
theorem safeName_targetName {path : PyStr} {filename : Option PyStr} {suffix : PyStr}
    (hsuffix : ∀ c ∈ suffix, isSafeChr c = true) : SafeName (targetName path filename suffix) := by
  unfold targetName
  split
  · exact safeName_safeFilename _
  · dsimp only
    split
    · exact safeName_safeFilename _
    · have hmedia : ∀ c ∈ (lit "media" : PyStr), isSafeChr c = true :=
        List.all_eq_true.mp (by decide)
      refine .of_head (c := ofChar 'm') rfl (by decide) fun c hc => ?_
      rcases List.mem_append.mp hc with hc | hc
      · exact hmedia c hc
      · exact hsuffix c hc

end SignalGateway.Proofs.Delivery
