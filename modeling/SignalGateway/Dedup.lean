import SignalGateway.Py.Str

/-!
# `SignalGateway.Dedup`: keys delivered within their TTL

The model of `dedup.py`. The source reads its clock once at the start of each call. Here the
time is an argument. Times are exact.

* `CompletedKeys.maybeSweep`, `CompletedKeys.isCompleted` and `CompletedKeys.markCompleted` are
  the methods. They return the new state with their answer.
* `entries` is the `dict` from keys to deadlines, as an association list without duplicate keys.
* `CompletedKeys.run` is a sequence of calls, each with its time.
-/

set_option autoImplicit false

namespace SignalGateway.Dedup

/-- `CompletedKeys`: the expiry of each key, and the sweep bookkeeping. -/
structure CompletedKeys where
  entries : AList fun _ : PyStr => ℚ
  ttl : ℚ
  sweepInterval : ℚ
  lastSweep : ℚ

/-- `CompletedKeys.__init__` -/
def CompletedKeys.create (ttl sweepInterval now : ℚ) : CompletedKeys :=
  ⟨∅, ttl, sweepInterval, now⟩

/-- The keys whose expiry is at or before `now`. -/
def CompletedKeys.expired (d : CompletedKeys) (now : ℚ) : List PyStr :=
  (d.entries.entries.filter fun e => e.2 ≤ now).map Sigma.fst

/-- `_maybe_sweep` -/
def CompletedKeys.maybeSweep (d : CompletedKeys) (now : ℚ) : CompletedKeys :=
  if now - d.lastSweep < d.sweepInterval then d
  else { d with
    lastSweep := now
    entries := (d.expired now).foldl (fun es key => es.erase key) d.entries }

/-- `is_completed`, with the state it leaves. -/
def CompletedKeys.isCompleted (d : CompletedKeys) (key : PyStr) (now : ℚ) :
    Bool × CompletedKeys :=
  let d := d.maybeSweep now
  ((d.entries.lookup key).any fun expiry => now < expiry, d)

/-- `mark_completed` -/
def CompletedKeys.markCompleted (d : CompletedKeys) (key : PyStr) (now : ℚ) :
    CompletedKeys :=
  let d := d.maybeSweep now
  { d with entries := d.entries.insert key (now + d.ttl) }

/-- `size` -/
def CompletedKeys.size (d : CompletedKeys) : Nat := d.entries.entries.length

/-! ### Runs -/

/-- A call on the cache. -/
inductive Call where
  | isCompleted (key : PyStr)
  | markCompleted (key : PyStr)
deriving DecidableEq, Repr

/-- One call at time `now`, with the answer if it has one. -/
def CompletedKeys.call (d : CompletedKeys) : Call → ℚ → Option Bool × CompletedKeys
  | .isCompleted key, now => (some (d.isCompleted key now).1, (d.isCompleted key now).2)
  | .markCompleted key, now => (none, d.markCompleted key now)

/-- A sequence of timed calls: the answers, and the cache at the end. -/
def CompletedKeys.run (d : CompletedKeys) :
    List (Call × ℚ) → List (Option Bool) × CompletedKeys
  | [] => ([], d)
  | (c, now) :: calls =>
      let first := d.call c now
      let rest := first.2.run calls
      (first.1 :: rest.1, rest.2)

end SignalGateway.Dedup
