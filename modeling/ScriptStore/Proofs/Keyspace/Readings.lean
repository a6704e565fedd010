import ScriptStore.Proofs.Keyspace.Addition

/-!
# The readings of a command

A command looks at the clocks as often as it looks keys up and sets deadlines.

* `Request.readings`, `Keyspace.readings` — how many readings a request and a command take.
* `Request.run_congr` — a request hangs on no other readings.
-/

namespace ScriptStore

open Keyspace

variable {clock clock' : Readings} {s : Keyspace} {key : String} {r : Request} {delta : Int64}
  {span : Span}

/-- How many readings of the clocks a request takes: one for each lookup of a key, and one for each
deadline that it sets or measures. -/
def Request.readings (clock : Readings) (s : Keyspace) : Request → Nat
  | .ping _ | .setClientName _ | .clientName | .clear | .set _ _ none => 0
  | .del keys | .exist keys => keys.length
  | .increase key delta =>
    match counter (s.live? (clock 0) key) with
    | .error _ => 1
    | .ok current => if (int64OfInt? (current.toInt + delta.toInt)).isSome then 2 else 1
  | .expire _ span => if span.amount ≤ 0 ∨ span.deadline? (clock 0) = none then 1 else 2
  | .remaining _ _ | .setAdd _ _ | .sortedAdd _ _ => 2
  | _ => 1

/-- How many readings of the clocks a command takes. -/
def Keyspace.readings (clock : Readings) (s : Keyspace) (name : String) (args : List String) :
    Nat :=
  match Request.ofCall name args with
  | .error _ => 0
  | .ok request => request.readings clock s

/-- An increment that takes a second reading does not fail. -/
theorem exists_sum_of_readings (h : 1 < (Request.increase key delta).readings clock s) :
    ∃ n sum, counter (s.live? (clock 0) key) = .ok n ∧
      int64OfInt? (n.toInt + delta.toInt) = some sum := by
  simp only [Request.readings] at h
  split at h
  · omega
  · rename_i n hn
    split at h
    · rename_i hsum
      obtain ⟨sum, hsum⟩ := Option.isSome_iff_exists.mp hsum
      exact ⟨n, sum, hn, hsum⟩
    · omega

/-- A deadline for which a second reading is taken lies ahead. -/
theorem exists_deadline_of_readings (h : 1 < (Request.expire key span).readings clock s) :
    ¬ span.amount ≤ 0 ∧ ∃ deadline, span.deadline? (clock 0) = some deadline := by
  simp only [Request.readings] at h
  split at h
  · omega
  · rename_i hlate
    obtain ⟨hpos, hd⟩ := not_or.mp hlate
    exact ⟨hpos, Option.ne_none_iff_exists'.mp hd⟩

/-! ## Keys in a row -/

theorem agree_cons {i : Nat} {keys : List String}
    (h : ∀ j < (key :: keys).length, clock (i + j) = clock' (i + j)) :
    clock i = clock' i ∧ ∀ j < keys.length, clock (i + 1 + j) = clock' (i + 1 + j) := by
  refine ⟨h 0 (by simp), fun j hj => ?_⟩
  have hnext := h (j + 1) (by simpa using hj)
  rwa [Nat.add_assoc, Nat.add_comm 1 j]

theorem removeAll_congr (keys : List String) (s : Keyspace) (i : Nat)
    (h : ∀ j < keys.length, clock (i + j) = clock' (i + j)) :
    removeAll clock s i keys = removeAll clock' s i keys := by
  induction keys generalizing s i with
  | nil => rfl
  | cons key keys ih =>
    obtain ⟨hfirst, hrest⟩ := agree_cons h
    simp only [removeAll, hfirst, ih _ _ hrest]

theorem countLive_congr (keys : List String) (s : Keyspace) (i : Nat)
    (h : ∀ j < keys.length, clock (i + j) = clock' (i + j)) :
    countLive clock s i keys = countLive clock' s i keys := by
  induction keys generalizing s i with
  | nil => rfl
  | cons key keys ih =>
    obtain ⟨hfirst, hrest⟩ := agree_cons h
    simp only [countLive, hfirst, ih _ _ hrest]

/-! ## Requests -/

/-- A request hangs on no reading but those that it takes. -/
theorem Request.run_congr (h : ∀ i < r.readings clock s, clock i = clock' i) :
    r.run clock s = r.run clock' s := by
  cases r with
  | ping message => cases message <;> rfl
  | setClientName | clientName | clear => rfl
  | del keys =>
    simp only [run, removeAll_congr keys s 0 fun j hj => by simpa using h j hj]
  | exist keys =>
    simp only [run, countLive_congr keys s 0 fun j hj => by simpa using h j hj]
  | get | persist | setSize | setMembers | sortedSize | size =>
    have h0 : clock 0 = clock' 0 := h 0 (by simp [readings])
    simp only [run, Keyspace.read, Keyspace.persist, h0]
  | set key value expiry =>
    cases expiry with
    | none => rfl
    | some span =>
      have h0 : clock 0 = clock' 0 := h 0 (by simp [readings])
      simp only [run, setString, h0]
  | remaining | setAdd | sortedAdd =>
    have h0 : clock 0 = clock' 0 := h 0 (by simp [readings])
    have h1 : clock 1 = clock' 1 := h 1 (by simp [readings])
    simp only [run, Keyspace.remaining, Keyspace.setAdd, Keyspace.sortedAdd, h0, h1]
  | increase key delta =>
    simp only [readings] at h
    simp only [run, Keyspace.increase, lookup_fst]
    cases hc : counter (s.live? (clock 0) key) with
    | error fault =>
      have h0 : clock 0 = clock' 0 := h 0 (by simp [hc])
      simp only [← h0, hc]
    | ok current =>
      cases hi : int64OfInt? (current.toInt + delta.toInt) with
      | none =>
        have h0 : clock 0 = clock' 0 := h 0 (by simp [hc, hi])
        simp only [← h0, hc, hi]
      | some sum =>
        have h0 : clock 0 = clock' 0 := h 0 (by simp [hc, hi])
        have h1 : clock 1 = clock' 1 := h 1 (by simp [hc, hi])
        simp only [← h0, ← h1, hc, hi]
  | expire key span =>
    simp only [readings] at h
    simp only [run, Keyspace.expire]
    by_cases hpos : span.amount ≤ 0
    · have h0 : clock 0 = clock' 0 := h 0 (by simp [hpos])
      simp only [if_pos hpos, h0]
    · simp only [if_neg hpos]
      cases hd : span.deadline? (clock 0) with
      | none =>
        have h0 : clock 0 = clock' 0 := h 0 (by simp [hd])
        simp only [← h0, hd]
      | some deadline =>
        have h0 : clock 0 = clock' 0 := h 0 (by simp [hpos, hd])
        have h1 : clock 1 = clock' 1 := h 1 (by simp [hpos, hd])
        simp only [← h0, ← h1, hd]

end ScriptStore
