import SignalGateway.Rpc
import SignalGateway.Proofs.Str
import SignalGateway.Lib.RegexGroups

/-!
# `SignalGateway.Proofs.RateLimitHints`: the hints of a rate limit

A hint comes from the structured field of an error or from its message.
`messageSeconds_ok`: the number that the pattern finds in a message always has a float.
`maxFrom_toFloat_iff`: the hints of the field have a greatest one with a float exactly if
they are numbers or strings throughout and the greatest has a float. `candidates_cases` says
when the field can be read at all.

The first half is about texts. The digits that `\d` matches are the ones that `float` reads, in
every script, so `DecimalText` suffices for a float (`DecimalText.floatStr`).

The second half is about JSON values. `max` compares its items with `>`, which raises for a number
and a string. So a list of hints has a greatest one only if its items are of one kind
(`kind_of_maxFrom`).
-/

set_option autoImplicit false

namespace SignalGateway.Proofs.Rpc

open SignalGateway.Rpc Regex PyChar

/-! ### Decimal digits -/

/-- The code points of the whitespace. -/
def spaceCodes : List Nat :=
  [0x9, 0xa, 0xb, 0xc, 0xd, 0x1c, 0x1d, 0x1e, 0x1f, 0x20, 0x85, 0xa0, 0x1680, 0x2000, 0x2001,
    0x2002, 0x2003, 0x2004, 0x2005, 0x2006, 0x2007, 0x2008, 0x2009, 0x200a, 0x2028, 0x2029,
    0x202f, 0x205f, 0x3000]

/-- The whitespace characters, one by one. -/
theorem mem_spaceCodes {n : Nat} (h : isSpaceCode n = true) : n ∈ spaceCodes := by
  simp only [isSpaceCode, Bool.or_eq_true, Bool.and_eq_true, decide_eq_true_eq, beq_iff_eq] at h
  simp only [spaceCodes, List.mem_cons, List.not_mem_nil, or_false]
  omega

/-- Whether the character is a decimal digit of some script. -/
def isDecimal (c : CodePoint) : Bool := (decimalDigit c.val).isSome

/-- A digit is no space. -/
theorem isIntSpace_of_decimal {c : CodePoint} (h : isDecimal c = true) : isIntSpace c = false := by
  have hnone : ∀ n ∈ spaceCodes, decimalDigit n = none := by decide
  by_contra hspace
  have hcode : isSpaceCode c.val = true := by
    simp only [isIntSpace, Bool.not_eq_false, Bool.and_eq_true] at hspace
    exact hspace.1
  rw [isDecimal, hnone _ (mem_spaceCodes hcode)] at h
  cases h

/-- A digit is no character without a digit value. -/
theorem isChr_of_decimal (ch : Char) (hch : decimalDigit ch.toNat = none) {c : CodePoint}
    (h : isDecimal c = true) : isChr ch c = false := by
  by_contra hchr
  have hcode : c.val = ch.toNat := by simpa [isChr, code] using hchr
  rw [isDecimal, hcode, hch] at h
  cases h

variable {s : PyStr}

/-- A string of digits is read digit by digit. -/
theorem groupedDigits_of_decimal (hne : s ≠ []) (h : ∀ c ∈ s, isDecimal c = true) :
    ∃ digits, groupedDigits s = some digits ∧ digits ≠ [] := by
  have hdigits : ∃ digits,
      List.Forall₂ (fun c d => decimalDigit (Fin.val c) = some d) s digits := by
    clear hne
    induction s with
    | nil => exact ⟨[], .nil⟩
    | cons c s ih =>
      obtain ⟨digits, hrest⟩ := ih fun d hd => h d (List.mem_cons_of_mem _ hd)
      obtain ⟨d, hd⟩ := Option.isSome_iff_exists.mp (h c List.mem_cons_self)
      exact ⟨d :: digits, .cons hd hrest⟩
  obtain ⟨digits, hdigits⟩ := hdigits
  have hplain : ∀ c ∈ s, isChr '_' c = false :=
    fun c hc => isChr_of_decimal '_' (by decide) (h c hc)
  refine ⟨digits, groupedDigits_eq_some hne hplain hdigits, ?_⟩
  rintro rfl
  exact hne (List.forall₂_nil_right_iff.mp hdigits)

/-! ### Decimal numbers -/

/-- Digits, or digits and a point and digits. -/
inductive DecimalText : PyStr → Prop where
  | whole {digits : PyStr} (hne : digits ≠ []) (h : ∀ c ∈ digits, isDecimal c = true) :
      DecimalText digits
  | fraction {digits fraction : PyStr} {point : CodePoint} (hne : digits ≠ [])
      (h : ∀ c ∈ digits, isDecimal c = true) (hpoint : isChr '.' point = true)
      (hne' : fraction ≠ []) (h' : ∀ c ∈ fraction, isDecimal c = true) :
      DecimalText (digits ++ point :: fraction)

/-- The characters of a number are digits and points. -/
theorem DecimalText.chars (h : DecimalText s) :
    ∀ c ∈ s, isDecimal c = true ∨ isChr '.' c = true := by
  cases h with
  | whole hne h => exact fun c hc => .inl (h c hc)
  | fraction hne h hpoint hne' h' =>
    intro c hc
    rcases List.mem_append.mp hc with hc | hc
    · exact .inl (h c hc)
    · rcases List.mem_cons.mp hc with rfl | hc
      · exact .inr hpoint
      · exact .inl (h' c hc)

/-- A number begins with a digit. -/
theorem DecimalText.head (h : DecimalText s) : ∃ c rest, s = c :: rest ∧ isDecimal c = true := by
  cases h with
  | whole hne h =>
    obtain ⟨c, rest, rfl⟩ := List.exists_cons_of_ne_nil hne
    exact ⟨c, rest, rfl, h c List.mem_cons_self⟩
  | fraction hne h hpoint hne' h' =>
    obtain ⟨c, rest, rfl⟩ := List.exists_cons_of_ne_nil hne
    exact ⟨c, _, rfl, h c List.mem_cons_self⟩

/-- A point is no other character. -/
theorem isChr_point (ch : Char) (hch : ch ≠ '.') {c : CodePoint} (h : isChr '.' c = true) :
    isChr ch c = false := by
  have hcode : c.val = '.'.toNat := by simpa [isChr, code] using h
  by_contra hchr
  have hcode' : c.val = ch.toNat := by simpa [isChr, code] using hchr
  exact hch (Char.toNat_inj.mp (hcode'.symm.trans hcode))

/-- A span over a part that fits, in front of one that does not. -/
theorem span_append {p : CodePoint → Bool} {a b : PyStr} (ha : ∀ c ∈ a, p c = true)
    (hb : ∀ c, b.head? = some c → p c = false) : (a ++ b).span p = (a, b) := by
  have hnil : b.takeWhile p = [] ∧ b.dropWhile p = b := by
    cases b with
    | nil => exact ⟨rfl, rfl⟩
    | cons c b => simp [hb c rfl]
  rw [List.span_eq_takeWhile_dropWhile, List.takeWhile_append_of_pos ha,
    List.dropWhile_append_of_pos ha, hnil.1, hnil.2, List.append_nil]

/-- A number has a value. -/
theorem DecimalText.decimalStr (h : DecimalText s) : ∃ q, SignalGateway.decimalStr s = some q := by
  have hexponent : s.span (fun c => !(isChr 'e' c || isChr 'E' c)) = (s, []) := by
    have hspan := span_append (p := fun c => !(isChr 'e' c || isChr 'E' c)) (a := s) (b := []) ?_
      (by rintro c ⟨⟩)
    · rwa [List.append_nil] at hspan
    · intro c hc
      rcases h.chars c hc with hdigit | hpoint
      · simp [isChr_of_decimal 'e' (by decide) hdigit, isChr_of_decimal 'E' (by decide) hdigit]
      · simp [isChr_point 'e' (by decide) hpoint, isChr_point 'E' (by decide) hpoint]
  have hdigits : ∀ {a : PyStr}, (∀ c ∈ a, isDecimal c = true) → ∀ c ∈ a, (!isChr '.' c) = true :=
    fun ha c hc => by simp [isChr_of_decimal '.' (by decide) (ha c hc)]
  rw [SignalGateway.decimalStr, hexponent]
  cases h with
  | whole hne h =>
    obtain ⟨digits, hgroup, hdigits'⟩ := groupedDigits_of_decimal hne h
    have hspan := span_append (p := fun c => !isChr '.' c) (b := []) (hdigits h) (by rintro c ⟨⟩)
    rw [List.append_nil] at hspan
    simp only [hspan]
    simp [digitsOrNone, hne, hgroup, hdigits']
  | @fraction digits fraction point hne h hpoint hne' h' =>
    obtain ⟨whole, hwhole, hwhole'⟩ := groupedDigits_of_decimal hne h
    obtain ⟨parts, hparts, -⟩ := groupedDigits_of_decimal hne' h'
    have hspan : (digits ++ point :: fraction).span (fun c => !isChr '.' c)
        = (digits, point :: fraction) := by
      refine span_append (hdigits h) ?_
      rintro _ ⟨⟩
      simp [hpoint]
    simp only [hspan]
    simp [digitsOrNone, hne, hne', hwhole, hparts, hwhole']

/-- A number has a float. -/
theorem DecimalText.floatStr (h : DecimalText s) : ∃ x, SignalGateway.floatStr s = some x := by
  have hstrip : (s.dropWhile isIntSpace).rdropWhile isIntSpace = s := by
    refine strip_digits fun c hc => ?_
    rcases h.chars c hc with hdigit | hpoint
    · exact isIntSpace_of_decimal hdigit
    · have hval : c.val = '.'.toNat := by simpa [isChr, code] using hpoint
      have hcode : c = ofChar '.' := Fin.ext hval
      rw [hcode]
      decide
  obtain ⟨c, rest, hs, hdigit⟩ := h.head
  have hsign : splitSign s = (1, s) := by
    rw [hs, splitSign, isChr_of_decimal '-' (by decide) hdigit,
      isChr_of_decimal '+' (by decide) hdigit]
    rfl
  obtain ⟨q, hq⟩ := h.decimalStr
  refine ⟨PyFloat.ofRat (1 * q), ?_⟩
  rw [SignalGateway.floatStr, hstrip, hsign]
  simp only [hq]
  norm_cast

/-! ### The number of a message -/

/-- One or more digits. -/
theorem slice_of_digits {msg : PyStr} {i : Nat} {o : Nat × List (Nat × Nat)}
    (h : o ∈ outcomes (codes msg) (.rep true 1 none isDecimalCode) i) :
    i < o.1 ∧ slice msg i o.1 ≠ [] ∧ ∀ c ∈ slice msg i o.1, isDecimal c = true := by
  simp only [outcomes, List.mem_map] at h
  obtain ⟨k, hk, rfl⟩ := h
  obtain ⟨hone, hrun⟩ := mem_counts.mp hk
  have hlen := runLength_le isDecimalCode (codes msg) i
  have hcodes : (codes msg).length = msg.length := List.length_map _
  refine ⟨by simp only; omega, ?_, ?_⟩
  · rw [← List.length_pos_iff, length_slice]
    simp only
    omega
  · refine forall_mem_slice fun j c hij hjk hc => ?_
    have hclass := runLength_spec isDecimalCode (codes msg) i (j - i) (by simp only at hjk; omega)
    rw [Nat.add_sub_cancel' hij, codes, List.getElem?_map, hc] at hclass
    exact hclass

/-- The pattern of a number matches digits, or digits and a point and digits. -/
theorem slice_of_secondsRe {msg : PyStr} {i : Nat} {o : Nat × List (Nat × Nat)}
    (h : o ∈ outcomes (codes msg) secondsRe i) : DecimalText (slice msg i o.1) := by
  rw [secondsRe, outcomes] at h
  simp only [List.mem_flatMap, List.mem_map] at h
  obtain ⟨oa, hoa, ob, hob, rfl⟩ := h
  obtain ⟨hlt, hne, hdigits⟩ := slice_of_digits hoa
  -- with a fraction, or without one
  rw [Re.opt, outcomes, List.mem_append] at hob
  rcases hob with hfraction | hempty
  · rw [outcomes_one_seq] at hfraction
    split at hfraction
    · next hpoint =>
      obtain ⟨hlt', hne', hdigits'⟩ := slice_of_digits hfraction
      obtain ⟨n, hn, hchr⟩ := (Option.any_eq_true _ _).mp hpoint
      rw [codes, List.getElem?_map] at hn
      obtain ⟨c, hc, rfl⟩ := Option.map_eq_some_iff.mp hn
      have hmiddle : slice msg oa.1 (oa.1 + 1) = [c] := by
        rw [slice_eq_take_drop, Nat.add_sub_cancel_left, List.take_one, List.head?_drop, hc]
        rfl
      have hsplit : slice msg i ob.1
          = slice msg i oa.1 ++ c :: slice msg (oa.1 + 1) ob.1 := by
        rw [← slice_append_slice msg hlt.le (Nat.le_succ _ |>.trans hlt'.le),
          ← slice_append_slice msg (Nat.le_succ oa.1) hlt'.le, hmiddle, List.singleton_append]
      rw [hsplit]
      exact .fraction hne hdigits hchr hne' hdigits'
    · cases hfraction
  · rw [outcomes, List.mem_singleton] at hempty
    rw [hempty]
    exact .whole hne hdigits

/-- A text of the pattern captures nothing. -/
theorem groups_of_anyCaseText {t : List Nat} {s : String} {i : Nat} {o : Nat × List (Nat × Nat)}
    (h : o ∈ outcomes t (anyCaseText s) i) : o.2 = [] := by
  rw [anyCaseText] at h
  generalize s.toList = chs at h
  induction chs generalizing i o with
  | nil =>
    rw [List.map_nil, Re.seqs, List.foldr_nil, outcomes, List.mem_singleton] at h
    rw [h]
  | cons ch chs ih =>
    rw [List.map_cons, Re.seqs, List.foldr_cons, outcomes_one_seq] at h
    split at h
    · exact ih h
    · cases h

/-- The group of a match is a number. -/
theorem group_of_retryAfterRe {msg : PyStr} {m : Match}
    (h : search (codes msg) retryAfterRe 0 = some m) :
    ∃ i j rest, m.groups = (i, j) :: rest ∧ DecimalText (slice msg i j) := by
  have hmatch := (search_some (Nat.zero_le _) h).2.2.1
  rw [matchAt, Option.map_eq_some_iff] at hmatch
  obtain ⟨o, ho, heq⟩ := hmatch
  have hgroups : m.groups = o.2 := by rw [← heq]
  have ho := List.mem_of_mem_head? ho
  rw [retryAfterRe, outcomes] at ho
  simp only [List.mem_flatMap, List.mem_map] at ho
  obtain ⟨oa, hoa, ob, hob, rfl⟩ := ho
  rw [outcomes] at hob
  simp only [List.mem_flatMap, List.mem_map] at hob
  obtain ⟨og, hog, oc, hoc, rfl⟩ := hob
  rw [outcomes, List.mem_map] at hog
  obtain ⟨on, hon, rfl⟩ := hog
  refine ⟨oa.1, on.1, on.2 ++ oc.2, ?_, slice_of_secondsRe hon⟩
  rw [hgroups, groups_of_anyCaseText hoa]
  rfl

/-- The seconds of a message are read without an error. -/
theorem messageSeconds_ok (msg : PyStr) : ∃ hint, messageSeconds msg = .ok hint := by
  rw [messageSeconds]
  cases hsearch : search (codes msg) retryAfterRe 0 with
  | none => exact ⟨none, rfl⟩
  | some m =>
    obtain ⟨i, j, rest, hgroups, htext⟩ := group_of_retryAfterRe hsearch
    obtain ⟨x, hx⟩ := htext.floatStr
    refine ⟨some x, ?_⟩
    simp only [hgroups, List.headD_cons, Json.toFloat, hx]
    rfl

/-! ### The greatest hint -/

/-- A value that has a float: a number that is not too large, or a text of one. -/
def HasFloat : Json → Prop
  | .bool _ | .float _ => True
  | .int n => |n| < 2 ^ 1024 - 2 ^ 970
  | .str s => ∃ x, floatStr s = some x
  | .null | .arr _ | .obj _ => False

/-- Numbers, or strings. -/
def Comparable (hints : List Json) : Prop :=
  (∀ h ∈ hints, h.isNumber = true) ∨ ∀ h ∈ hints, h.isStr = true

/-- The hints have a greatest one, and it has a float. -/
def ConvertibleMax (hint : Json) (hints : List Json) : Prop :=
  Comparable (hint :: hints) ∧ HasFloat (Json.greatestFrom hint hints)

/-- The values that `float` converts. -/
theorem toFloat_iff {x : Json} : (∃ y, x.toFloat = .ok y) ↔ HasFloat x := by
  cases x with
  | bool b => exact iff_of_true ⟨_, rfl⟩ trivial
  | float x => exact iff_of_true ⟨_, rfl⟩ trivial
  | int n =>
    rw [Json.toFloat, HasFloat]
    rcases floatOfInt_cases n with ⟨hsmall, q, bound, hfloat⟩ | ⟨hbig, hover⟩
    · exact iff_of_true ⟨_, hfloat⟩ hsmall
    · refine iff_of_false ?_ hbig.not_gt
      rintro ⟨y, hy⟩
      rw [hover] at hy
      cases hy
  | str s =>
    rw [Json.toFloat, HasFloat]
    cases floatStr s with
    | none => exact iff_of_false (by rintro ⟨y, ⟨⟩⟩) (by rintro ⟨y, ⟨⟩⟩)
    | some x => exact iff_of_true ⟨x, rfl⟩ ⟨x, rfl⟩
  | null => exact iff_of_false (by rintro ⟨y, ⟨⟩⟩) id
  | arr xs => exact iff_of_false (by rintro ⟨y, ⟨⟩⟩) id
  | obj items => exact iff_of_false (by rintro ⟨y, ⟨⟩⟩) id

/-- A value with a float is a number or a string. -/
theorem HasFloat.kind {x : Json} (h : HasFloat x) : x.isNumber = true ∨ x.isStr = true := by
  cases x with
  | bool b => exact .inl rfl
  | int n => exact .inl rfl
  | float x => exact .inl rfl
  | str s => exact .inr rfl
  | null => exact absurd h id
  | arr xs => exact absurd h id
  | obj items => exact absurd h id

variable {listGt : List Json → List Json → Except PyError Bool}

/-- Two numbers, or two strings, are compared. -/
theorem gt_of_same {x y : Json}
    (h : x.isNumber = true ∧ y.isNumber = true ∨ x.isStr = true ∧ y.isStr = true) :
    x.gt listGt y = .ok (x.greater y) := by
  have hcond : ((x.isNumber && y.isNumber) || (x.isStr && y.isStr)) = true := by
    simpa using h
  unfold Json.gt
  split
  · cases hcond
  · rw [if_pos hcond]

/-- What is compared is of one kind. -/
theorem kind_of_gt {x y : Json} {b : Bool} (h : x.gt listGt y = .ok b) :
    x.isNumber = y.isNumber ∧ x.isStr = y.isStr := by
  -- No value is both a number and a string.
  have hnumber : ∀ {z : Json}, z.isNumber = true → z.isStr = false := by
    intro z hz
    cases z with
    | str s => cases hz
    | _ => rfl
  have hstr : ∀ {z : Json}, z.isStr = true → z.isNumber = false := by
    intro z hz
    cases z with
    | str s => rfl
    | _ => cases hz
  unfold Json.gt at h
  split at h
  · exact ⟨rfl, rfl⟩
  · split at h
    · next hcond =>
      rw [Bool.or_eq_true, Bool.and_eq_true, Bool.and_eq_true] at hcond
      rcases hcond with ⟨hx, hy⟩ | ⟨hx, hy⟩
      · rw [hx, hy, hnumber hx, hnumber hy]
        exact ⟨rfl, rfl⟩
      · rw [hx, hy, hstr hx, hstr hy]
        exact ⟨rfl, rfl⟩
    · cases h

/-- The greatest of numbers, or of strings. -/
theorem maxFrom_of_comparable {hints : List Json} : ∀ {top : Json}, Comparable (top :: hints) →
    Json.maxFrom listGt top hints = .ok (Json.greatestFrom top hints) := by
  induction hints with
  | nil => exact fun _ => rfl
  | cons x xs ih =>
    intro top h
    -- Two hints of a kind can be compared.
    have hgt : x.gt listGt top = .ok (x.greater top) := by
      apply gt_of_same
      rcases h with h | h
      · exact .inl ⟨h x (by simp), h top (by simp)⟩
      · exact .inr ⟨h x (by simp), h top (by simp)⟩
    -- The greater of the two is of the kind of the rest.
    have hnext : ∀ next ∈ [x, top], Comparable (next :: xs) := by
      intro next hmem
      have hsub : next :: xs ⊆ top :: x :: xs := by
        rcases List.mem_cons.mp hmem with rfl | hmem
        · exact List.subset_cons_self _ _
        · rw [List.mem_singleton.mp hmem]
          exact List.cons_subset_cons _ (List.subset_cons_self _ _)
      exact h.imp (fun h y hy => h y (hsub hy)) fun h y hy => h y (hsub hy)
    rw [Json.maxFrom, hgt, Json.greatestFrom, List.foldl_cons]
    show (if x.greater top = true then _ else _) = _
    split
    · exact ih (hnext x (by simp))
    · exact ih (hnext top (by simp))

/-- What has a maximum is of the kind of its maximum. -/
theorem kind_of_maxFrom {hints : List Json} : ∀ {top m : Json},
    Json.maxFrom listGt top hints = .ok m →
      ∀ h ∈ top :: hints, h.isNumber = m.isNumber ∧ h.isStr = m.isStr := by
  induction hints with
  | nil =>
    rintro top m ⟨⟩ h hmem
    rw [List.mem_singleton.mp hmem]
    exact ⟨rfl, rfl⟩
  | cons x xs ih =>
    intro top m hmax h hmem
    rw [Json.maxFrom] at hmax
    cases hgt : x.gt listGt top with
    | error e =>
      rw [hgt] at hmax
      cases hmax
    | ok b =>
      obtain ⟨hnumber, hstr⟩ := kind_of_gt hgt
      rw [hgt] at hmax
      have hmax : (if b = true then Json.maxFrom listGt x xs else Json.maxFrom listGt top xs)
          = .ok m := hmax
      -- the two values compared are of one kind, and one of them is kept
      have hboth : (∀ h ∈ xs, h.isNumber = m.isNumber ∧ h.isStr = m.isStr) ∧
          x.isNumber = m.isNumber ∧ x.isStr = m.isStr := by
        split at hmax
        · have hall := ih hmax
          exact ⟨fun h hh => hall h (List.mem_cons_of_mem _ hh), hall x List.mem_cons_self⟩
        · have hall := ih hmax
          have htop := hall top List.mem_cons_self
          exact ⟨fun h hh => hall h (List.mem_cons_of_mem _ hh), hnumber.trans htop.1,
            hstr.trans htop.2⟩
      rcases List.mem_cons.mp hmem with rfl | hmem
      · exact ⟨hnumber.symm.trans hboth.2.1, hstr.symm.trans hboth.2.2⟩
      · rcases List.mem_cons.mp hmem with rfl | hmem
        · exact hboth.2
        · exact hboth.1 h hmem

/-- Hints have a float exactly if they have a greatest one with a float. -/
theorem maxFrom_toFloat_iff (hint : Json) (hints : List Json) :
    (∃ y, (Json.maxFrom listGt hint hints >>= Json.toFloat) = .ok y) ↔
      ConvertibleMax hint hints := by
  constructor
  · rintro ⟨y, hy⟩
    cases hmax : Json.maxFrom listGt hint hints with
    | error e =>
      rw [hmax] at hy
      cases hy
    | ok m =>
      rw [hmax] at hy
      have hfloat : HasFloat m := toFloat_iff.mp ⟨y, hy⟩
      -- what was compared is of the kind of the greatest, which has a float
      have hkind := kind_of_maxFrom hmax
      have hcomparable : Comparable (hint :: hints) := by
        rcases hfloat.kind with hm | hm
        · exact .inl fun h hh => (hkind h hh).1.trans hm
        · exact .inr fun h hh => (hkind h hh).2.trans hm
      have hgreatest : Json.maxFrom listGt hint hints = .ok _ := maxFrom_of_comparable hcomparable
      rw [hmax] at hgreatest
      cases hgreatest
      exact ⟨hcomparable, hfloat⟩
  · rintro ⟨hcomparable, hfloat⟩
    rw [maxFrom_of_comparable hcomparable]
    exact toFloat_iff.mpr hfloat

/-! ### The structured field -/

/-- The items of an object. Other values count as none. -/
def fieldsOf : Json → List (PyStr × Json)
  | .obj items => items
  | _ => []

/-- An object, or a value that counts as false. -/
def ObjectOrFalsy (x : Json) : Prop := x.truthy = false ∨ ∃ items, x = .obj items

/-- A value that a loop can visit, or one that counts as false. -/
def IterableOrFalsy (x : Json) : Prop := x.truthy = false ∨ ∃ entries, x.iter = .ok entries

/-- `error.data.response` -/
def responseField (items : List (PyStr × Json)) : Json :=
  Json.lookup (fieldsOf (Json.lookup items "data")) "response"

/-- `error.data.response.results` -/
def resultsField (items : List (PyStr × Json)) : Json :=
  Json.lookup (fieldsOf (responseField items)) "results"

/-- The hints of what `results` holds. Only the entries of an array have hints. -/
def hintsIn : Json → List Json
  | .arr entries => entries.filterMap resultHint
  | _ => []

/-- The hints of an error. -/
def hintsOf (items : List (PyStr × Json)) : List Json := hintsIn (resultsField items)

/-- The structured field of an error can be walked. -/
structure Walkable (items : List (PyStr × Json)) : Prop where
  data : ObjectOrFalsy (Json.lookup items "data")
  response : ObjectOrFalsy (responseField items)
  results : IterableOrFalsy (resultsField items)

/-- `(x or {}).get(key)` -/
theorem get?_or_cases (x : Json) (key : String) :
    ObjectOrFalsy x ∧ (x.or (.obj [])).get? key = .ok (Json.lookup (fieldsOf x) key) ∨
      ¬ ObjectOrFalsy x ∧ (x.or (.obj [])).get? key = .error .attributeError := by
  rw [Json.or]
  cases htruthy : x.truthy with
  | false =>
    refine .inl ⟨.inl htruthy, ?_⟩
    cases x with
    | obj items =>
      cases items with
      | nil => rfl
      | cons item items => cases htruthy
    | _ => rfl
  | true =>
    cases x with
    | obj items => exact .inl ⟨.inr ⟨items, rfl⟩, rfl⟩
    | _ =>
      refine .inr ⟨?_, rfl⟩
      rintro (hfalsy | ⟨items, ⟨⟩⟩)
      rw [htruthy] at hfalsy
      cases hfalsy

/-- Strings have no hints. -/
theorem filterMap_resultHint_str {α : Type} (f : α → PyStr) (xs : List α) :
    (xs.map fun x => Json.str (f x)).filterMap resultHint = [] := by
  rw [List.filterMap_map]
  exact List.filterMap_eq_nil_iff.mpr fun _ _ => rfl

/-- `for r in (x or [])` -/
theorem iter_or_cases (x : Json) :
    IterableOrFalsy x ∧ (∃ entries, (x.or (.arr [])).iter = .ok entries ∧
        entries.filterMap resultHint = hintsIn x) ∨
      ¬ IterableOrFalsy x ∧ ∃ e, (x.or (.arr [])).iter = .error e := by
  rw [Json.or]
  cases htruthy : x.truthy with
  | false =>
    refine .inl ⟨.inl htruthy, [], rfl, ?_⟩
    cases x with
    | arr entries =>
      cases entries with
      | nil => rfl
      | cons entry entries => cases htruthy
    | _ => rfl
  | true =>
    -- a truthy value that cannot be visited
    have hno : ∀ {e : PyError}, x.iter = .error e → ¬ IterableOrFalsy x := by
      rintro e he (hfalsy | ⟨entries, hentries⟩)
      · rw [htruthy] at hfalsy
        cases hfalsy
      · rw [he] at hentries
        cases hentries
    rw [if_pos rfl]
    cases x with
    | arr entries => exact .inl ⟨.inr ⟨entries, rfl⟩, entries, rfl, rfl⟩
    | obj items => exact .inl ⟨.inr ⟨_, rfl⟩, _, rfl, filterMap_resultHint_str Prod.fst items⟩
    | str s => exact .inl ⟨.inr ⟨_, rfl⟩, _, rfl, filterMap_resultHint_str (fun c => [c]) s⟩
    | _ => exact .inr ⟨hno rfl, _, rfl⟩

/-- The hints of an error are found, unless a value on the way is of the wrong kind. -/
theorem candidates_cases (items : List (PyStr × Json)) :
    Walkable items ∧ candidates items = .ok (hintsOf items) ∨
      ¬ Walkable items ∧ ∃ e, candidates items = .error e := by
  -- The walk goes through three fields, and each can stop it.
  rcases get?_or_cases (Json.lookup items "data") "response" with ⟨hdata, hget⟩ | ⟨hdata, hget⟩
  · have hbehind : candidates items = (do
        let results ← ((responseField items).or (.obj [])).get? "results"
        return (← (results.or (.arr [])).iter).filterMap resultHint) := by
      rw [candidates, hget]
      rfl
    rcases get?_or_cases (responseField items) "results" with
      ⟨hresponse, hget⟩ | ⟨hresponse, hget⟩
    · have hloop : candidates items
          = (do return (← ((resultsField items).or (.arr [])).iter).filterMap resultHint) := by
        rw [hbehind, hget]
        rfl
      rcases iter_or_cases (resultsField items) with
        ⟨hresults, entries, hiter, hhints⟩ | ⟨hresults, e, hiter⟩
      · refine .inl ⟨⟨hdata, hresponse, hresults⟩, ?_⟩
        rw [hloop, hiter]
        exact congrArg Except.ok hhints
      · refine .inr ⟨fun h => hresults h.results, e, ?_⟩
        rw [hloop, hiter]
        rfl
    · refine .inr ⟨fun h => hresponse h.response, .attributeError, ?_⟩
      rw [hbehind, hget]
      rfl
  · refine .inr ⟨fun h => hdata h.data, .attributeError, ?_⟩
    rw [candidates, hget]
    rfl

end SignalGateway.Proofs.Rpc
