import Mathlib
import ScriptStore.Proofs.Keyspace.Interference
import ScriptStore.Proofs.Keyspace.View

/-!
# Counting keys

Three commands count live keys, each with a loop of its own: one scans all entries, one looks up the
keys that it is given, and one removes them. The last two change the keyspace while they count, and
a key may be given twice.

* `Keyspace.liveKeys` — the keys that are live at a moment, as a finite set;
  `Keyspace.card_liveKeys` — the scan counts them.
* `Keyspace.countLive_fst` — looking keys up counts a key as often as it is given.
* `Keyspace.removeAll_fst` — removing keys counts each of them once.
* `live_keys_are_counted_alike` — **the three commands agree on which keys there are**.
-/

namespace ScriptStore

open Keyspace

variable {now : Moment} {s t : Keyspace} {key : String}

namespace Keyspace

/-! ## Live keys -/

/-- The keys that are live at a moment. -/
def liveKeys (s : Keyspace) (now : Moment) : Finset String :=
  (s.entries.filter fun _ e => !e.expired now).keys.toFinset

theorem mem_liveKeys : key ∈ s.liveKeys now ↔ (s.live? now key).isSome := by
  rw [liveKeys, List.mem_toFinset, Std.TreeMap.mem_keys, Std.TreeMap.mem_iff_isSome_getElem?,
    Std.TreeMap.getElem?_filter']
  rfl

/-- What one lookup of a key counts. -/
theorem toNat_isSome_live? (s : Keyspace) (now : Moment) (key : String) :
    (s.live? now key).isSome.toNat = if key ∈ s.liveKeys now then 1 else 0 := by
  simp only [mem_liveKeys]
  cases (s.live? now key).isSome <;> rfl

/-- The scan of all entries counts the live keys. -/
theorem card_liveKeys (s : Keyspace) (now : Moment) : (s.liveKeys now).card = s.liveCount now := by
  rw [liveKeys, List.toFinset_card_of_nodup Std.TreeMap.nodup_keys, Std.TreeMap.length_keys,
    liveCount_eq_size_filter]

theorem liveKeys_congr (h : ∀ key, s.live? now key = t.live? now key) :
    s.liveKeys now = t.liveKeys now := by
  ext key
  rw [mem_liveKeys, mem_liveKeys, h]

/-! ## One key after another -/

theorem liveKeys_remove (s : Keyspace) (now : Moment) (key : String) :
    (s.remove now key).2.liveKeys now = (s.liveKeys now).erase key := by
  ext other
  rw [Finset.mem_erase, mem_liveKeys, mem_liveKeys, live?_remove]
  by_cases h : other = key
  · simp [h]
  · simp [h]

theorem liveKeys_removeAll (s : Keyspace) (now : Moment) (i : Nat) (keys : List String) :
    (removeAll (.frozen now) s i keys).2.liveKeys now = s.liveKeys now \ keys.toFinset := by
  ext key
  rw [Finset.mem_sdiff, List.mem_toFinset, mem_liveKeys, mem_liveKeys, live?_removeAll]
  by_cases h : key ∈ keys
  · simp [h]
  · simp [h]

/-- The keys that are left and those that have been removed are all that were live. -/
theorem liveCount_removeAll (s : Keyspace) (now : Moment) (i : Nat) (keys : List String) :
    (removeAll (.frozen now) s i keys).2.liveCount now +
      (s.liveKeys now ∩ keys.toFinset).card = s.liveCount now := by
  rw [← card_liveKeys, ← card_liveKeys, liveKeys_removeAll]
  exact Finset.card_sdiff_add_card_inter (s.liveKeys now) keys.toFinset

/-- Removing keys counts each of those that are live once: a key that is given again has gone by
then. -/
theorem removeAll_fst (s : Keyspace) (now : Moment) (i : Nat) (keys : List String) :
    (removeAll (.frozen now) s i keys).1 = (s.liveKeys now ∩ keys.toFinset).card := by
  induction keys generalizing s i with
  | nil => simp [removeAll]
  | cons first keys ih =>
    have hstep : (removeAll (.frozen now) s i (first :: keys)).1 =
        (if first ∈ s.liveKeys now then 1 else 0) +
          ((s.liveKeys now).erase first ∩ keys.toFinset).card := by
      rw [← liveKeys_remove, ← ih _ (i + 1), ← toNat_isSome_live?, ← remove_fst]
      rfl
    rw [hstep, List.toFinset_cons, Finset.erase_inter]
    by_cases hlive : first ∈ s.liveKeys now
    · have hsplit : s.liveKeys now ∩ Insert.insert first keys.toFinset =
          Insert.insert first ((s.liveKeys now ∩ keys.toFinset).erase first) := by
        rw [Finset.inter_insert_of_mem hlive]
        ext key
        by_cases hkey : key = first
        · simp [hkey]
        · simp [hkey]
      rw [hsplit, Finset.card_insert_of_notMem (Finset.notMem_erase _ _), if_pos hlive,
        Nat.add_comm]
    · have hnot : first ∉ s.liveKeys now ∩ keys.toFinset := fun h => hlive (Finset.mem_inter.mp h).1
      rw [Finset.inter_insert_of_notMem hlive, Finset.erase_eq_of_notMem hnot, if_neg hlive,
        Nat.zero_add]

/-- Looking keys up counts a live key as often as it is given. -/
theorem countLive_fst (s : Keyspace) (now : Moment) (i : Nat) (keys : List String) :
    (countLive (.frozen now) s i keys).1 =
      (keys.map fun key => if key ∈ s.liveKeys now then 1 else 0).sum := by
  induction keys generalizing s i with
  | nil => rfl
  | cons first keys ih =>
    have hkeep : (s.lookup now first).2.liveKeys now = s.liveKeys now :=
      liveKeys_congr fun key => live?_lookup (Nat.le_refl _) first key
    have hrest := ih (s.lookup now first).2 (i + 1)
    rw [hkeep] at hrest
    rw [List.map_cons, List.sum_cons, ← hrest, ← toNat_isSome_live?, ← lookup_fst]
    rfl

end Keyspace

/-! ## The three commands -/

namespace Keyspace

variable {exist del dbsize : String} {keys : List String}

theorem dispatch_exist (asked : Command.ofName? exist = some .exist) (some : keys ≠ [])
    (s : Keyspace) (now : Moment) : s.dispatch (.frozen now) exist keys =
      (.ok (.count (keys.map fun key => if key ∈ s.liveKeys now then 1 else 0).sum),
        (countLive (.frozen now) s 0 keys).2) := by
  obtain ⟨key, hkey⟩ := List.exists_mem_of_ne_nil keys some
  rw [dispatch, Request.ofCall_exist asked hkey, ← countLive_fst s now 0 keys]
  rfl

theorem dispatch_del (removes : Command.ofName? del = some .del) (some : keys ≠ [])
    (s : Keyspace) (now : Moment) : s.dispatch (.frozen now) del keys =
      (.ok (.count (s.liveKeys now ∩ keys.toFinset).card),
        (removeAll (.frozen now) s 0 keys).2) := by
  obtain ⟨key, hkey⟩ := List.exists_mem_of_ne_nil keys some
  rw [dispatch, Request.ofCall_del removes hkey, ← removeAll_fst s now 0 keys]
  rfl

theorem dispatch_dbsize (counts : Command.ofName? dbsize = some .dbsize) (s : Keyspace)
    (now : Moment) : s.dispatch (.frozen now) dbsize [] = (.ok (.count (s.liveCount now)), s) := by
  simp [dispatch, Request.ofCall, counts, Command.arity, Arity.accepts, Request.ofArguments,
    Request.run, Readings.frozen]

/-- A key is live exactly if it is counted once. -/
theorem reply_exist_eq_one_iff (asked : Command.ofName? exist = some .exist) :
    (s.dispatch (.frozen now) exist [key]).1 = .ok (.integer 1) ↔ key ∈ s.liveKeys now := by
  rw [dispatch_exist asked (List.cons_ne_nil key [])]
  by_cases h : key ∈ s.liveKeys now
  · simp [h, Value.count]
  · simp [h, Value.count]

end Keyspace

/-- **Live keys are counted alike**, whichever command counts them, in every keyspace and at every
moment.

* There are as many keys as there are for which one key asked for is answered with 1. That number is
  what the store gives as its size, and what the command for it replies.
* Asking for several keys replies the sum of the single answers, and changes nothing that is live.
* Removing keys replies how many of them are live, each counted once, and by this number the size
  drops. Then none of them is live, all others are as they were, and removing them again replies 0.
* Without keys, asking and removing are refused. -/
theorem live_keys_are_counted_alike {exist del dbsize : String}
    (asked : Command.ofName? exist = some .exist) (removes : Command.ofName? del = some .del)
    (counts : Command.ofName? dbsize = some .dbsize) (s : Keyspace) (now : Moment) :
    let live := s.liveKeys now
    let single (key : String) : Nat := if key ∈ live then 1 else 0
    (∀ key, key ∈ live ↔ (s.dispatch (.frozen now) exist [key]).1 = .ok (.integer 1)) ∧
    (∀ key, (s.dispatch (.frozen now) exist [key]).1 = .ok (.count (single key))) ∧
    s.liveCount now = live.card ∧
    (s.dispatch (.frozen now) dbsize []).1 = .ok (.count live.card) ∧
    (∀ keys, keys ≠ [] →
      let ask := s.dispatch (.frozen now) exist keys
      let removal := s.dispatch (.frozen now) del keys
      let removed := live ∩ keys.toFinset
      (ask.1 = .ok (.count (keys.map single).sum) ∧
        ∀ key, ask.2.live? now key = s.live? now key) ∧
      removal.1 = .ok (.count removed.card) ∧
      (removal.2.dispatch (.frozen now) dbsize []).1 = .ok (.count (live.card - removed.card)) ∧
      removal.2.liveCount now + removed.card = s.liveCount now ∧
      (∀ key ∈ keys, removal.2.live? now key = none) ∧
      (∀ key ∉ keys, removal.2.live? now key = s.live? now key) ∧
      (removal.2.dispatch (.frozen now) del keys).1 = .ok (.integer 0)) ∧
    s.dispatch (.frozen now) exist [] = (.error (.command (.wrongArity exist)), s) ∧
    s.dispatch (.frozen now) del [] = (.error (.command (.wrongArity del)), s) := by
  intro live single
  refine ⟨fun key => (reply_exist_eq_one_iff asked).symm, fun key => ?_,
    (card_liveKeys s now).symm, ?_, fun keys some => ?_, ?_, ?_⟩
  · rw [dispatch_exist asked (List.cons_ne_nil key [])]
    simp [single, live]
  · rw [dispatch_dbsize counts, ← card_liveKeys]
  · intro ask removal removed
    have hask : ask = _ := dispatch_exist asked some s now
    have hremoval : removal = _ := dispatch_del removes some s now
    have hleft : removal.2.liveKeys now = live \ keys.toFinset := by
      rw [hremoval, liveKeys_removeAll]
    have hdrop : removal.2.liveCount now + removed.card = s.liveCount now := by
      rw [hremoval]
      exact liveCount_removeAll s now 0 keys
    have hlive (key : String) : removal.2.live? now key =
        if key ∈ keys then none else s.live? now key := by
      rw [hremoval, live?_removeAll]
    refine ⟨⟨by rw [hask], fun key => ?_⟩, by rw [hremoval], ?_, hdrop, fun key hkey => ?_,
      fun key hkey => ?_, ?_⟩
    · rw [hask, live?_countLive]
    · have hcard : live.card = s.liveCount now := card_liveKeys s now
      rw [dispatch_dbsize counts, hcard, ← hdrop, Nat.add_sub_cancel]
    · rw [hlive, if_pos hkey]
    · rw [hlive, if_neg hkey]
    · rw [dispatch_del removes some, hleft, Finset.sdiff_inter_self]
      rfl
  · simp [dispatch, Request.ofCall, asked, Command.arity, Arity.accepts]
  · simp [dispatch, Request.ofCall, removes, Command.arity, Arity.accepts]

/-- Two keys of which one expires, and a third that has expired and is still in place. -/
def mixedKeyspace : Keyspace :=
  ((Keyspace.empty.insert "a" (.lasting (.string "1"))).insert "b" ⟨.string "2", some 100⟩).insert
    "c" ⟨.string "3", some 50⟩

/-- Keys that are given twice, that have expired or that have never been there. -/
theorem live_keys_are_counted_alike_mixed :
    let clock := Readings.frozen ⟨50, 0⟩
    let keys := ["a", "c", "a", "d"]
    (mixedKeyspace.dispatch clock "dbsize" []).1 = .ok (.integer 2) ∧
      (mixedKeyspace.dispatch clock "EXISTS" keys).1 = .ok (.integer 2) ∧
      (mixedKeyspace.dispatch clock "del" keys).1 = .ok (.integer 1) ∧
      ((mixedKeyspace.dispatch clock "del" keys).2.dispatch clock "dbsize" []).1 =
        .ok (.integer 1) := by
  have hlive : mixedKeyspace.liveKeys ⟨50, 0⟩ = {"a", "b"} := by
    ext key
    rw [mem_liveKeys, live?, mixedKeyspace, entries_insert, entries_insert, entries_insert]
    split_ifs with hc hb ha
    · simp [hc, Entry.expired]
    · simp [hb, Entry.expired]
    · simp [ha, Entry.expired, Entry.lasting]
    · simp [ha, hb, Keyspace.empty]
  intro clock keys
  obtain ⟨-, -, -, hsize, hkeys, -⟩ := live_keys_are_counted_alike
    (by decide : Command.ofName? "EXISTS" = some .exist)
    (by decide : Command.ofName? "del" = some .del)
    (by decide : Command.ofName? "dbsize" = some .dbsize) mixedKeyspace ⟨50, 0⟩
  obtain ⟨⟨hask, -⟩, hremoval, hafter, -⟩ := hkeys keys (List.cons_ne_nil _ _)
  rw [hlive] at hsize hask hremoval hafter
  exact ⟨hsize, hask, hremoval, hafter⟩

end ScriptStore
