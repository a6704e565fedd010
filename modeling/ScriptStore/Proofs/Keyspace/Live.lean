import ScriptStore.Keyspace.Dispatch

/-!
# What a moment shows of the keyspace

An expired entry may stay in place for as long as nothing looks its key up, so the state of a
keyspace says little by itself; what counts is what a moment shows of it.

* `Keyspace.live?_insert`, `Keyspace.live?_lookup`, `Keyspace.live?_remove` — the operations seen
  through the view at a moment.
* `Keyspace.Sheds` — one keyspace is another without some entries that have expired. Looking a key
  up sheds (`Keyspace.sheds_lookup`), and no moment from then on shows a difference
  (`Keyspace.Sheds.live?_eq`).
* `Keyspace.liveCount_eq_of_live?_eq` — keyspaces that show the same keys show as many.
-/

namespace ScriptStore

variable {now past : Moment} {s t u : Keyspace} {key other : String} {e : Entry}

/-! ## Deadlines -/

/-- What has expired stays so. -/
theorem Entry.expired_mono (le : past.nanos ≤ now.nanos) (h : e.expired past = true) :
    e.expired now = true := by
  unfold Entry.expired at *
  split at h
  · cases h
  · simp only [decide_eq_true_eq] at *
    omega

theorem Entry.expired_congr (h : past.nanos = now.nanos) : e.expired past = e.expired now := by
  simp only [Entry.expired, h]

@[simp] theorem Entry.expired_lasting (data : Data) (now : Moment) :
    (Entry.lasting data).expired now = false := rfl

namespace Keyspace

/-! ## Bindings -/

@[simp] theorem entries_insert (s : Keyspace) (key other : String) (e : Entry) :
    (s.insert key e).entries[other]? = if other = key then some e else s.entries[other]? := by
  simp only [insert, Std.TreeMap.getElem?_insert, Std.LawfulEqCmp.compare_eq_iff_eq]
  simp only [eq_comm]

theorem entries_erase (s : Keyspace) (key other : String) :
    (s.entries.erase key)[other]? = if other = key then none else s.entries[other]? := by
  simp only [Std.TreeMap.getElem?_erase, Std.LawfulEqCmp.compare_eq_iff_eq]
  simp only [eq_comm]

theorem live?_eq_some_iff :
    s.live? now key = some e ↔ s.entries[key]? = some e ∧ e.expired now = false := by
  simp [live?, Option.filter_eq_some_iff]

theorem live?_eq_none_iff :
    s.live? now key = none ↔ ∀ e, s.entries[key]? = some e → e.expired now = true := by
  simp [live?, Option.filter_eq_none_iff]

/-- A moment shows live entries only. -/
theorem expired_of_live? (h : s.live? now key = some e) : e.expired now = false :=
  (live?_eq_some_iff.mp h).2

/-- A key that has gone stays gone. -/
theorem live?_eq_none_mono (le : past.nanos ≤ now.nanos) (h : s.live? past key = none) :
    s.live? now key = none := by
  rw [live?_eq_none_iff] at *
  intro e he
  exact Entry.expired_mono le (h e he)

/-- What a moment shows under a key hangs on nothing but the entry that is there. -/
theorem live?_congr (h : s.entries[key]? = t.entries[key]?) :
    s.live? now key = t.live? now key := by
  rw [live?, live?, h]

/-! ## Operations seen at a moment -/

theorem live?_insert (live : e.expired now = false) :
    (s.insert key e).live? now other = if other = key then some e else s.live? now other := by
  rw [live?, entries_insert]
  split
  · simp [live]
  · rfl

/-- Looking a key up finds what the moment shows. -/
@[simp] theorem lookup_fst (s : Keyspace) (now : Moment) (key : String) :
    (s.lookup now key).1 = s.live? now key := by
  unfold lookup live?
  split
  · rename_i h
    rw [h]; rfl
  · rename_i e h
    cases he : e.expired now <;> simp [h, he, Option.filter_some]

/-- Looking a key up leaves in place what the moment shows. -/
theorem entries_lookup_self (s : Keyspace) (now : Moment) (key : String) :
    (s.lookup now key).2.entries[key]? = s.live? now key := by
  unfold lookup live?
  split
  · rename_i h
    simp only [h, Option.filter_none]
  · rename_i e h
    cases he : e.expired now
    · simp [h, he, Option.filter_some]
    · simp [h, he, Option.filter_some]

theorem entries_lookup_of_ne (s : Keyspace) (now : Moment) (h : other ≠ key) :
    (s.lookup now key).2.entries[other]? = s.entries[other]? := by
  unfold lookup
  split
  · rfl
  · split
    · simp only [entries_erase, if_neg h]
    · rfl

@[simp] theorem clientName_lookup (s : Keyspace) (now : Moment) (key : String) :
    (s.lookup now key).2.clientName = s.clientName := by
  unfold lookup
  split
  · rfl
  · split <;> rfl

/-- Looking a live key up changes nothing. -/
theorem lookup_eq_of_live? (h : s.live? now key = some e) : s.lookup now key = (some e, s) := by
  obtain ⟨he, hl⟩ := live?_eq_some_iff.mp h
  simp [lookup, he, hl]

theorem lookup_eq_of_live?_none (h : s.live? now key = none) :
    s.lookup now key = (none, (s.lookup now key).2) := by
  rw [← h, ← lookup_fst]

/-! ## Shedding expired entries -/

/-- A keyspace is another one without some of the entries that have expired at a moment. -/
structure Sheds (now : Moment) (s t : Keyspace) : Prop where
  entries : ∀ key, t.entries[key]? = s.entries[key]? ∨
    t.entries[key]? = none ∧ s.live? now key = none
  clientName : t.clientName = s.clientName

namespace Sheds

theorem refl (now : Moment) (s : Keyspace) : Sheds now s s := ⟨fun _ => .inl rfl, rfl⟩

/-- Nothing that has been shed is shown. -/
theorem live?_eq (h : Sheds now s t) (key : String) : t.live? now key = s.live? now key := by
  rcases h.entries key with h | ⟨h, hn⟩
  · exact live?_congr h
  · rw [hn, live?, h, Option.filter_none]

theorem trans (h : Sheds now s t) (h' : Sheds now t u) : Sheds now s u := by
  refine ⟨fun key => ?_, h'.clientName.trans h.clientName⟩
  rcases h'.entries key with hu | ⟨hu, hn⟩
  · rw [hu]
    exact h.entries key
  · exact .inr ⟨hu, by rw [← h.live?_eq key, hn]⟩

theorem mono (le : past.nanos ≤ now.nanos) (h : Sheds past s t) : Sheds now s t :=
  ⟨fun key => (h.entries key).imp_right fun ⟨hu, hn⟩ => ⟨hu, live?_eq_none_mono le hn⟩,
    h.clientName⟩

/-- Nothing is there after shedding that was not there before. -/
theorem entries_of_entries (h : Sheds now s t) (he : t.entries[key]? = some e) :
    s.entries[key]? = some e := by
  rcases h.entries key with h | ⟨h, _⟩
  · rw [← h, he]
  · rw [h] at he; cases he

end Sheds

/-- Looking a key up sheds its expired entry. -/
theorem sheds_lookup (s : Keyspace) (now : Moment) (key : String) :
    Sheds now s (s.lookup now key).2 := by
  refine ⟨fun other => ?_, clientName_lookup s now key⟩
  by_cases h : other = key
  · subst h
    rw [entries_lookup_self]
    cases hl : s.live? now other with
    | none => exact .inr ⟨rfl, rfl⟩
    | some e => exact .inl (live?_eq_some_iff.mp hl).1.symm
  · exact .inl (entries_lookup_of_ne s now h)

/-- Looking a key up is not seen from then on. -/
theorem live?_lookup (le : past.nanos ≤ now.nanos) (key other : String) :
    (s.lookup past key).2.live? now other = s.live? now other :=
  ((sheds_lookup s past key).mono le).live?_eq other

/-- Removing a key takes what was live under it. -/
theorem remove_fst (s : Keyspace) (now : Moment) (key : String) :
    (s.remove now key).1 = (s.live? now key).isSome := by
  simp [remove]

theorem clientName_remove (s : Keyspace) (now : Moment) (key : String) :
    (s.remove now key).2.clientName = s.clientName := by
  simp [remove]

theorem live?_remove (s : Keyspace) (now : Moment) (key other : String) :
    (s.remove now key).2.live? now other = if other = key then none else s.live? now other := by
  have h : (s.remove now key).2.entries[other]? =
      if other = key then none else (s.lookup now key).2.entries[other]? := by
    simp [remove, entries_erase]
  rw [live?, h]
  split
  · rfl
  · exact live?_lookup (Nat.le_refl _) key other

/-! ## Counting -/

theorem liveCount_eq_size_filter (s : Keyspace) (now : Moment) :
    s.liveCount now = (s.entries.filter fun _ e => !e.expired now).size := by
  rw [liveCount, ← Std.TreeMap.length_toList, Std.TreeMap.toList_filter]

theorem liveCount_eq_of_live?_eq (h : ∀ key, s.live? now key = t.live? now key) :
    s.liveCount now = t.liveCount now := by
  rw [liveCount_eq_size_filter, liveCount_eq_size_filter]
  refine Std.TreeMap.Equiv.size_eq (.of_forall_constGet?_eq fun key => ?_)
  rw [Std.TreeMap.getElem?_filter', Std.TreeMap.getElem?_filter']
  exact h key

end Keyspace

end ScriptStore
