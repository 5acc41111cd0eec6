import SignalGateway.Dedup

/-!
# `SignalGateway.Proofs.Dedup`: the dedup cache as a history of marks

A history says, for each key, when it was last marked: it is a function
`marks : PyStr → Option ℚ`. `Tracks d marks now` connects a cache with a history. An entry is
the last mark plus the TTL, or it has been swept, and then the mark has run out by `now`.

`markCompleted` and `isCompleted` keep the connection, and `isCompleted` answers from the
history alone (`Tracks.isCompleted_fst`). So sweeping cannot be seen from outside
(`answer_iff_lastMark`).

`Swept d` bounds what is stored: every entry outlives the last sweep, and the last sweep is
less than an interval old. So the cache is no larger than the number of keys with a recent mark
(`bounded_memory`).

`answer_iff_lastMark` holds for every sweep interval, also for one that is longer than the TTL. The
times of the calls only have to be non-decreasing. In `bounded_memory` the TTL is positive: an
entry that runs out when it is made would not outlive the sweep before it.

Both are inductions over the calls from the end (`run_append`): the last call is the one that is
looked at, and the calls in front of it are a run.
-/

set_option autoImplicit false

namespace SignalGateway.Proofs.Dedup

open SignalGateway.Dedup

/-- Erasing keys one after the other. -/
theorem lookup_foldl_erase {κ : Type} [DecidableEq κ] {β : κ → Type} (k : κ) (ks : List κ) :
    ∀ es : AList β, (ks.foldl (fun es key => es.erase key) es).lookup k
      = if k ∈ ks then none else es.lookup k := by
  induction ks with
  | nil => intro es; simp
  | cons key ks ih =>
    intro es
    rw [List.foldl_cons, ih]
    by_cases hks : k ∈ ks
    · rw [if_pos hks, if_pos (List.mem_cons_of_mem _ hks)]
    · rw [if_neg hks]
      by_cases hk : k = key
      · rw [hk, AList.lookup_erase, if_pos List.mem_cons_self]
      · rw [AList.lookup_erase_ne hk, if_neg (by simp [hk, hks])]

/-- The keys whose time is over. -/
theorem mem_expired {d : CompletedKeys} {now : ℚ} {k : PyStr} :
    k ∈ d.expired now ↔ ∃ expiry ∈ d.entries.lookup k, expiry ≤ now := by
  simp only [CompletedKeys.expired, List.mem_map, List.mem_filter, decide_eq_true_eq,
    AList.mem_lookup_iff]
  constructor
  · rintro ⟨⟨key, expiry⟩, ⟨hmem, hle⟩, rfl⟩
    exact ⟨expiry, hmem, hle⟩
  · rintro ⟨expiry, hmem, hle⟩
    exact ⟨⟨k, expiry⟩, ⟨hmem, hle⟩, rfl⟩

/-- A sweep leaves the lifetime. -/
@[simp] theorem ttl_maybeSweep (d : CompletedKeys) (now : ℚ) :
    (d.maybeSweep now).ttl = d.ttl := by
  unfold CompletedKeys.maybeSweep
  split <;> rfl

/-- A question leaves the lifetime. -/
@[simp] theorem ttl_isCompleted (d : CompletedKeys) (key : PyStr) (now : ℚ) :
    (d.isCompleted key now).2.ttl = d.ttl := ttl_maybeSweep d now

/-- A mark leaves the lifetime. -/
@[simp] theorem ttl_markCompleted (d : CompletedKeys) (key : PyStr) (now : ℚ) :
    (d.markCompleted key now).ttl = d.ttl := ttl_maybeSweep d now

/-- A sweep only removes entries that have run out. -/
theorem lookup_maybeSweep (d : CompletedKeys) (now : ℚ) (k : PyStr) :
    (d.maybeSweep now).entries.lookup k = d.entries.lookup k ∨
      ((d.maybeSweep now).entries.lookup k = none ∧
        ∃ expiry ∈ d.entries.lookup k, expiry ≤ now) := by
  unfold CompletedKeys.maybeSweep
  split
  · exact Or.inl rfl
  · simp only [lookup_foldl_erase]
    split
    · rename_i hk
      exact Or.inr ⟨rfl, mem_expired.mp hk⟩
    · exact Or.inl rfl

/-- The cache holds the marks of the history, up to entries that have run out. -/
def Tracks (d : CompletedKeys) (marks : PyStr → Option ℚ) (now : ℚ) : Prop :=
  ∀ k, d.entries.lookup k = (marks k).map (· + d.ttl) ∨
    (d.entries.lookup k = none ∧ ∀ m ∈ marks k, m + d.ttl ≤ now)

/-- The lifetime of a fresh cache. -/
@[simp] theorem ttl_create (ttl sweepInterval now : ℚ) :
    (CompletedKeys.create ttl sweepInterval now).ttl = ttl := rfl

/-- The sweep interval of a fresh cache. -/
@[simp] theorem sweepInterval_create (ttl sweepInterval now : ℚ) :
    (CompletedKeys.create ttl sweepInterval now).sweepInterval = sweepInterval := rfl

/-- A fresh cache has no history. -/
theorem tracks_create (ttl sweepInterval now : ℚ) :
    Tracks (.create ttl sweepInterval now) (fun _ => none) now :=
  fun _ => Or.inl (AList.lookup_empty _)

/-- Time alone does not change what the cache knows. -/
theorem Tracks.mono {d : CompletedKeys} {marks : PyStr → Option ℚ} {now now' : ℚ}
    (h : Tracks d marks now) (hle : now ≤ now') : Tracks d marks now' := by
  intro k
  rcases h k with hk | ⟨hk, hout⟩
  · exact Or.inl hk
  · exact Or.inr ⟨hk, fun m hm => (hout m hm).trans hle⟩

/-- A sweep forgets only what has expired. -/
theorem Tracks.maybeSweep {d : CompletedKeys} {marks : PyStr → Option ℚ} {now now' : ℚ}
    (h : Tracks d marks now) (hle : now ≤ now') : Tracks (d.maybeSweep now') marks now' := by
  intro k
  rw [ttl_maybeSweep]
  rcases lookup_maybeSweep d now' k with hkeep | ⟨hgone, expiry, hexp, hout⟩
  · rw [hkeep]
    exact h.mono hle k
  · refine Or.inr ⟨hgone, ?_⟩
    rcases h k with hk | ⟨hk, -⟩
    · intro m hm
      rw [hk, Option.mem_def, Option.map_eq_some_iff] at hexp
      obtain ⟨m', hm', rfl⟩ := hexp
      rw [Option.mem_def, hm'] at hm
      cases hm
      exact hout
    · rw [hk] at hexp
      cases hexp

/-- So does a question. -/
theorem Tracks.isCompleted {d : CompletedKeys} {marks : PyStr → Option ℚ} {now now' : ℚ}
    (h : Tracks d marks now) (hle : now ≤ now') (key : PyStr) :
    Tracks (d.isCompleted key now').2 marks now' := h.maybeSweep hle

/-- `isCompleted` answers whether the last mark is younger than the TTL. -/
theorem Tracks.isCompleted_fst {d : CompletedKeys} {marks : PyStr → Option ℚ} {now now' : ℚ}
    (h : Tracks d marks now) (hle : now ≤ now') (key : PyStr) :
    (d.isCompleted key now').1 = true ↔ ∃ m ∈ marks key, now' < m + d.ttl := by
  have hswept := h.maybeSweep hle key
  simp only [CompletedKeys.isCompleted, Option.any_eq_true, decide_eq_true_eq]
  rw [ttl_maybeSweep] at hswept
  rcases hswept with hk | ⟨hk, hout⟩
  · rw [hk]
    simp
  · rw [hk]
    constructor
    · rintro ⟨x, hx, -⟩
      cases hx
    · rintro ⟨m, hm, hlt⟩
      exact absurd (hout m hm) (not_le.mpr hlt)

/-- `markCompleted` sets the last mark of its key. -/
theorem Tracks.markCompleted {d : CompletedKeys} {marks : PyStr → Option ℚ} {now now' : ℚ}
    (h : Tracks d marks now) (hle : now ≤ now') (key : PyStr) :
    Tracks (d.markCompleted key now') (Function.update marks key (some now')) now' := by
  intro k
  have hswept := h.maybeSweep hle k
  rw [ttl_maybeSweep] at hswept
  simp only [CompletedKeys.markCompleted, ttl_maybeSweep]
  by_cases hk : k = key
  · subst hk
    simp [AList.lookup_insert]
  · rw [AList.lookup_insert_ne hk, Function.update_of_ne hk]
    exact hswept

/-! ### Runs -/

/-- A clock that starts at `t₀` and does not go back. -/
def NonDecreasing (t₀ : ℚ) (calls : List (Call × ℚ)) : Prop :=
  (t₀ :: calls.map Prod.snd).Pairwise (· ≤ ·)

/-- The times at which `key` was marked. -/
def marksOf (key : PyStr) (calls : List (Call × ℚ)) : List ℚ :=
  (calls.filter fun c => c.1 = .markCompleted key).map Prod.snd

/-- The latest mark of `key`. -/
def lastMark (calls : List (Call × ℚ)) (key : PyStr) : Option ℚ := (marksOf key calls).getLast?

/-- A question is no mark. -/
theorem lastMark_isCompleted (calls : List (Call × ℚ)) (key : PyStr) (now : ℚ) :
    lastMark (calls ++ [(.isCompleted key, now)]) = lastMark calls := by
  funext k
  simp [lastMark, marksOf]

/-- A mark is the last one of its key. -/
theorem lastMark_markCompleted (calls : List (Call × ℚ)) (key : PyStr) (now : ℚ) :
    lastMark (calls ++ [(.markCompleted key, now)])
      = Function.update (lastMark calls) key (some now) := by
  funext k
  by_cases hk : k = key
  · subst hk
    simp [lastMark, marksOf]
  · have hne : key ≠ k := fun h => hk h.symm
    rw [Function.update_of_ne hk]
    simp [lastMark, marksOf, hne]

/-- The last call of a run. -/
theorem run_append (d : CompletedKeys) (calls : List (Call × ℚ)) (c : Call) (now : ℚ) :
    d.run (calls ++ [(c, now)]) = ((d.run calls).1 ++ [((d.run calls).2.call c now).1],
      ((d.run calls).2.call c now).2) := by
  induction calls generalizing d with
  | nil => rfl
  | cons first calls ih => simp [CompletedKeys.run, ih]

/-- Every call has an answer. -/
theorem length_answers (d : CompletedKeys) (calls : List (Call × ℚ)) :
    (d.run calls).1.length = calls.length := by
  induction calls generalizing d with
  | nil => rfl
  | cons c calls ih => simp [CompletedKeys.run, ih]

/-- Up to the last call the times do not decrease, either. -/
theorem run_nonDecreasing {t₀ now : ℚ} {calls : List (Call × ℚ)} {c : Call}
    (h : NonDecreasing t₀ (calls ++ [(c, now)])) :
    NonDecreasing t₀ calls ∧ ∀ t ∈ t₀ :: calls.map Prod.snd, t ≤ now := by
  rw [NonDecreasing, List.map_append, ← List.cons_append, List.pairwise_append] at h
  exact ⟨h.1, fun t ht => h.2.2 t ht now (List.mem_singleton_self _)⟩

/-- A call leaves the lifetime. -/
@[simp] theorem ttl_call (d : CompletedKeys) (c : Call) (now : ℚ) : (d.call c now).2.ttl = d.ttl := by
  cases c with
  | isCompleted key => exact ttl_isCompleted d key now
  | markCompleted key => exact ttl_markCompleted d key now

/-- The lifetime does not change. -/
@[simp] theorem ttl_run (d : CompletedKeys) (calls : List (Call × ℚ)) :
    (d.run calls).2.ttl = d.ttl := by
  induction calls generalizing d with
  | nil => rfl
  | cons c calls ih => exact (ih _).trans (ttl_call d c.1 c.2)

/-- One call extends the history. -/
theorem Tracks.call {d : CompletedKeys} {calls : List (Call × ℚ)} {now : ℚ}
    (h : Tracks d (lastMark calls) now) (c : Call) :
    Tracks (d.call c now).2 (lastMark (calls ++ [(c, now)])) now := by
  cases c with
  | isCompleted key =>
    rw [lastMark_isCompleted]
    exact h.isCompleted le_rfl key
  | markCompleted key =>
    rw [lastMark_markCompleted]
    exact h.markCompleted le_rfl key

/-- After a run, the cache holds its marks. -/
theorem tracks_run {ttl sweepInterval t₀ : ℚ} {calls : List (Call × ℚ)}
    (hclock : NonDecreasing t₀ calls) {t : ℚ} (ht : ∀ t' ∈ t₀ :: calls.map Prod.snd, t' ≤ t) :
    Tracks ((CompletedKeys.create ttl sweepInterval t₀).run calls).2 (lastMark calls) t := by
  induction calls using List.reverseRecOn generalizing t with
  | nil => exact (tracks_create ttl sweepInterval t₀).mono (ht t₀ List.mem_cons_self)
  | append_singleton calls c ih =>
    obtain ⟨c, now⟩ := c
    obtain ⟨hbefore, hle⟩ := run_nonDecreasing hclock
    have hnow : now ≤ t := ht now (by simp)
    rw [run_append]
    exact ((ih hbefore hle).call c).mono hnow

/-- The answer of a call in a run. -/
theorem answer_run {calls : List (Call × ℚ)} : ∀ {d : CompletedKeys} {i : Nat} {c : Call} {now : ℚ},
    calls[i]? = some (c, now) →
      (d.run calls).1[i]? = some ((d.run (calls.take i)).2.call c now).1 := by
  induction calls with
  | nil => exact fun h => by cases h
  | cons first calls ih =>
    intro d i c now h
    cases i with
    | zero =>
      cases h
      rfl
    | succ i => exact ih h

/-- The calls up to one of them. -/
theorem NonDecreasing.take {t₀ now : ℚ} {calls : List (Call × ℚ)} {i : Nat} {c : Call}
    (h : NonDecreasing t₀ calls) (hi : calls[i]? = some (c, now)) :
    NonDecreasing t₀ (calls.take i ++ [(c, now)]) := by
  have hfront : calls.take i ++ [(c, now)] <+: calls := by
    have htake : calls.take (i + 1) = calls.take i ++ [(c, now)] := by
      rw [List.take_add_one, hi]
      rfl
    exact htake ▸ List.take_prefix _ _
  exact h.sublist ((hfront.map Prod.snd).sublist.cons_cons t₀)

/-- The answer of `is_completed` in a run, read off the marks. -/
theorem answer_isCompleted {ttl sweepInterval t₀ t : ℚ} {calls : List (Call × ℚ)}
    (hclock : NonDecreasing t₀ calls) {i : Nat} {key : PyStr}
    (hi : calls[i]? = some (.isCompleted key, t)) :
    ((CompletedKeys.create ttl sweepInterval t₀).run calls).1[i]?
      = some (some ((lastMark (calls.take i) key).any fun m => t < m + ttl)) := by
  obtain ⟨hbefore, hle⟩ := run_nonDecreasing (hclock.take hi)
  have htracks : Tracks ((CompletedKeys.create ttl sweepInterval t₀).run (calls.take i)).2
      (lastMark (calls.take i)) t := tracks_run hbefore hle
  have hanswer := htracks.isCompleted_fst le_rfl key
  rw [ttl_run] at hanswer
  rw [answer_run hi]
  refine congrArg (fun b => some (some b)) (Bool.eq_iff_iff.mpr ?_)
  rw [hanswer, Option.any_eq_true]
  simp

/-- Lazy sweeping is not observable: in every run, `is_completed` answers whether the latest
mark of its key is younger than the TTL. So the answers are the same for every sweep interval. -/
theorem answer_iff_lastMark {ttl t₀ : ℚ} {calls : List (Call × ℚ)}
    (hclock : NonDecreasing t₀ calls) (sweepInterval : ℚ) :
    (∀ (i : Nat) (key : PyStr) (t : ℚ), calls[i]? = some (.isCompleted key, t) →
      ∃ answer, ((CompletedKeys.create ttl sweepInterval t₀).run calls).1[i]?
          = some (some answer) ∧
        (answer = true ↔ ∃ m ∈ lastMark (calls.take i) key, t < m + ttl)) ∧
    ∀ sweepInterval', ((CompletedKeys.create ttl sweepInterval' t₀).run calls).1
      = ((CompletedKeys.create ttl sweepInterval t₀).run calls).1 := by
  refine ⟨fun i key t hi => ⟨_, answer_isCompleted hclock hi, ?_⟩, fun sweepInterval' => ?_⟩
  · simp [Option.any_eq_true]
  · refine List.ext_getElem? fun i => ?_
    cases hi : calls[i]? with
    | none =>
      have hlen := List.getElem?_eq_none_iff.mp hi
      rw [List.getElem?_eq_none (by rwa [length_answers]),
        List.getElem?_eq_none (by rwa [length_answers])]
    | some c =>
      obtain ⟨c, now⟩ := c
      -- Only questions are answered, and their answers depend on the marks alone.
      cases c with
      | isCompleted key => rw [answer_isCompleted hclock hi, answer_isCompleted hclock hi]
      | markCompleted key =>
        rw [answer_run hi, answer_run hi]
        rfl

/-- A key that is asked for again after a sweep that its own mark outlived. -/
theorem answer_iff_lastMark_refreshed :
    let calls : List (Call × ℚ) :=
      [(.markCompleted (lit "k"), 0), (.markCompleted (lit "k"), 700),
        (.isCompleted (lit "k"), 1200)]
    (∀ (i : Nat) (key : PyStr) (t : ℚ), calls[i]? = some (.isCompleted key, t) →
      ∃ answer, ((CompletedKeys.create 1000 500 0).run calls).1[i]? = some (some answer) ∧
        (answer = true ↔ ∃ m ∈ lastMark (calls.take i) key, t < m + 1000)) ∧
    ∀ sweepInterval', ((CompletedKeys.create 1000 sweepInterval' 0).run calls).1
      = ((CompletedKeys.create 1000 500 0).run calls).1 :=
  answer_iff_lastMark (by simp [NonDecreasing]; norm_num) 500

/-! ### What is stored -/

/-- Every entry outlives the last sweep. -/
def Swept (d : CompletedKeys) : Prop := ∀ k, ∀ expiry ∈ d.entries.lookup k, d.lastSweep < expiry

/-- A sweep leaves only entries that outlive it. -/
theorem Swept.maybeSweep {d : CompletedKeys} (h : Swept d) (now : ℚ) :
    Swept (d.maybeSweep now) := by
  unfold CompletedKeys.maybeSweep
  split
  · exact h
  · intro k expiry hexpiry
    simp only [lookup_foldl_erase] at hexpiry
    split at hexpiry
    · cases hexpiry
    · next hk => exact not_le.mp fun hle => hk (mem_expired.mpr ⟨expiry, hexpiry, hle⟩)

/-- A mark expires behind the next sweep. -/
theorem Swept.markCompleted {d : CompletedKeys} (h : Swept d) {now : ℚ} (httl : 0 < d.ttl)
    (hlast : (d.maybeSweep now).lastSweep ≤ now) (key : PyStr) :
    Swept (d.markCompleted key now) := by
  intro k expiry hexpiry
  simp only [CompletedKeys.markCompleted, ttl_maybeSweep] at hexpiry ⊢
  by_cases hk : k = key
  · rw [hk, AList.lookup_insert] at hexpiry
    cases hexpiry
    linarith
  · rw [AList.lookup_insert_ne hk] at hexpiry
    exact h.maybeSweep now k expiry hexpiry

/-- After an access, the last sweep is less than an interval old. -/
theorem recent_maybeSweep {d : CompletedKeys} (hinterval : 0 < d.sweepInterval) (now : ℚ) :
    now - (d.maybeSweep now).lastSweep < d.sweepInterval := by
  unfold CompletedKeys.maybeSweep
  split
  · assumption
  · simpa using hinterval

/-- The last sweep is not in the future. -/
theorem lastSweep_maybeSweep_le {d : CompletedKeys} {now : ℚ} (h : d.lastSweep ≤ now) :
    (d.maybeSweep now).lastSweep ≤ now := by
  unfold CompletedKeys.maybeSweep
  split
  · exact h
  · exact le_rfl

/-- A call leaves the sweep interval. -/
@[simp] theorem sweepInterval_call (d : CompletedKeys) (c : Call) (now : ℚ) :
    (d.call c now).2.sweepInterval = d.sweepInterval := by
  have hsweep : (d.maybeSweep now).sweepInterval = d.sweepInterval := by
    unfold CompletedKeys.maybeSweep
    split <;> rfl
  cases c <;> exact hsweep

/-- The sweep interval does not change. -/
@[simp] theorem sweepInterval_run (d : CompletedKeys) (calls : List (Call × ℚ)) :
    (d.run calls).2.sweepInterval = d.sweepInterval := by
  induction calls generalizing d with
  | nil => rfl
  | cons c calls ih => exact (ih _).trans (sweepInterval_call d c.1 c.2)

/-- A call sweeps at most once. -/
theorem lastSweep_call (d : CompletedKeys) (c : Call) (now : ℚ) :
    (d.call c now).2.lastSweep = (d.maybeSweep now).lastSweep := by
  cases c <;> rfl

/-- A call keeps the cache swept. -/
theorem Swept.call {d : CompletedKeys} (h : Swept d) {now : ℚ} (httl : 0 < d.ttl)
    (hlast : d.lastSweep ≤ now) (c : Call) : Swept (d.call c now).2 := by
  cases c with
  | isCompleted key => exact h.maybeSweep now
  | markCompleted key => exact h.markCompleted httl (lastSweep_maybeSweep_le hlast) key

/-- After a run, every entry outlives the last sweep, which is in the past. -/
theorem swept_run {ttl sweepInterval t₀ : ℚ} (httl : 0 < ttl) {calls : List (Call × ℚ)}
    (hclock : NonDecreasing t₀ calls) {t : ℚ} (ht : ∀ t' ∈ t₀ :: calls.map Prod.snd, t' ≤ t) :
    Swept ((CompletedKeys.create ttl sweepInterval t₀).run calls).2 ∧
      ((CompletedKeys.create ttl sweepInterval t₀).run calls).2.lastSweep ≤ t := by
  induction calls using List.reverseRecOn generalizing t with
  | nil => exact ⟨fun k expiry h => (by cases h), ht t₀ List.mem_cons_self⟩
  | append_singleton calls c ih =>
    obtain ⟨c, now⟩ := c
    obtain ⟨hbefore, hle⟩ := run_nonDecreasing hclock
    obtain ⟨hswept, hlast⟩ := ih hbefore hle
    have hnow : now ≤ t := ht now (by simp)
    rw [run_append]
    refine ⟨hswept.call (by simpa using httl) hlast c, ?_⟩
    rw [lastSweep_call]
    exact (lastSweep_maybeSweep_le hlast).trans hnow

/-- The key that a call marks. -/
def markedKey : Call → Option PyStr
  | .isCompleted _ => none
  | .markCompleted key => some key

/-- The keys that were marked after the time `t`. -/
def markedAfter (t : ℚ) (calls : List (Call × ℚ)) : Finset PyStr :=
  ((calls.filter fun c => t < c.2).filterMap fun c => markedKey c.1).toFinset

/-- A key marked behind `t` is among those marked since. -/
theorem mem_markedAfter {t m : ℚ} {calls : List (Call × ℚ)} {key : PyStr}
    (hmark : m ∈ lastMark calls key) (ht : t < m) : key ∈ markedAfter t calls := by
  obtain ⟨c, hc, rfl⟩ := List.mem_map.mp (List.mem_of_mem_getLast? hmark)
  obtain ⟨hmem, hkey⟩ := List.mem_filter.mp hc
  rw [markedAfter, List.mem_toFinset, List.mem_filterMap]
  refine ⟨c, List.mem_filter.mpr ⟨hmem, by simpa using ht⟩, ?_⟩
  rw [of_decide_eq_true hkey]
  rfl

/-- Bounded dedup memory: after each call, at time `t`, every entry outlives the last sweep,
which is less than a sweep interval old. So no entry is kept past its expiry for a sweep
interval, and there are no more entries than keys with a recent mark. -/
theorem bounded_memory {ttl sweepInterval t₀ t : ℚ} (httl : 0 < ttl)
    (hinterval : 0 < sweepInterval) {calls : List (Call × ℚ)} {c : Call}
    (hclock : NonDecreasing t₀ (calls ++ [(c, t)])) :
    let d := ((CompletedKeys.create ttl sweepInterval t₀).run (calls ++ [(c, t)])).2
    (∀ e ∈ d.entries.entries, d.lastSweep < e.2) ∧
      t - d.lastSweep < sweepInterval ∧
      (∀ e ∈ d.entries.entries, t < e.2 + sweepInterval) ∧
      d.size ≤ (markedAfter (t - (ttl + sweepInterval)) (calls ++ [(c, t)])).card := by
  intro d
  have hend : ∀ t' ∈ t₀ :: (calls ++ [(c, t)]).map Prod.snd, t' ≤ t := by
    have hle := (run_nonDecreasing hclock).2
    intro t' ht'
    rw [List.map_append, ← List.cons_append] at ht'
    rcases List.mem_append.mp ht' with ht' | ht'
    · exact hle t' ht'
    · exact (List.mem_singleton.mp ht').le
  -- Behind the last call every entry expires later than the last sweep.
  have hswept : Swept d := (swept_run httl hclock hend).1
  -- And the last sweep is recent, since the last call has looked.
  have hrecent : t - d.lastSweep < sweepInterval := by
    show t - ((CompletedKeys.create ttl sweepInterval t₀).run (calls ++ [(c, t)])).2.lastSweep < _
    rw [run_append, lastSweep_call]
    simpa using recent_maybeSweep (d := ((CompletedKeys.create ttl sweepInterval t₀).run calls).2)
      (by simpa using hinterval) t
  have houtlive : ∀ e ∈ d.entries.entries, d.lastSweep < e.2 :=
    fun e he => hswept e.1 e.2 (AList.mem_lookup_iff.mpr he)
  refine ⟨houtlive, hrecent, fun e he => ?_, ?_⟩
  · have := houtlive e he
    linarith
  · -- The expiry of an entry is the last mark of its key plus the TTL.
    have hmarked : ∀ k ∈ d.entries.keys, k ∈ markedAfter (t - (ttl + sweepInterval))
        (calls ++ [(c, t)]) := by
      intro k hk
      obtain ⟨expiry, hexpiry⟩ := Option.isSome_iff_exists.mp
        (AList.lookup_isSome.mpr (AList.mem_keys.mpr hk))
      have hout := hswept k expiry hexpiry
      have htracks : Tracks d (lastMark (calls ++ [(c, t)])) t := tracks_run hclock hend
      have httl_eq : d.ttl = ttl := by simp [d]
      rcases htracks k with hlookup | ⟨hnone, -⟩
      · rw [hlookup, Option.map_eq_some_iff, httl_eq] at hexpiry
        obtain ⟨m, hm, rfl⟩ := hexpiry
        refine mem_markedAfter hm ?_
        linarith
      · rw [hnone] at hexpiry
        cases hexpiry
    calc d.size = d.entries.keys.length := (List.length_map _).symm
      _ = d.entries.keys.toFinset.card := (List.toFinset_card_of_nodup d.entries.keys_nodup).symm
      _ ≤ _ := Finset.card_le_card fun k hk => hmarked k (List.mem_toFinset.mp hk)

/-- Two keys, the first of which has run out when the second is marked. -/
theorem bounded_memory_two_keys :
    let calls : List (Call × ℚ) := [(.markCompleted (lit "k1"), 0)]
    let d := ((CompletedKeys.create 1000 500 0).run
      (calls ++ [(.markCompleted (lit "k2"), 2000)])).2
    (∀ e ∈ d.entries.entries, d.lastSweep < e.2) ∧
      2000 - d.lastSweep < 500 ∧
      (∀ e ∈ d.entries.entries, 2000 < e.2 + 500) ∧
      d.size ≤ (markedAfter (2000 - (1000 + 500))
        (calls ++ [(.markCompleted (lit "k2"), 2000)])).card :=
  bounded_memory (by norm_num) (by norm_num) (by simp [NonDecreasing])

end SignalGateway.Proofs.Dedup
