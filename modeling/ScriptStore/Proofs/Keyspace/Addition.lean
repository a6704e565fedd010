import ScriptStore.Proofs.Keyspace.Live

/-!
# Additions to containers

Sets and sorted sets grow in the same way: a key without data is given an empty container first, and
a second lookup finds the container that grows.

* `Keyspace.ensure_cases` — what the first lookup leads to.
* `Addition` — what is added, seen as a function of the data that is there.
* `Keyspace.grow` — adds to what a key holds. Additions to sets and to sorted sets are cases of it
  (`Keyspace.setAdd_eq_grow`, `Keyspace.sortedAdd_eq_grow`).
-/

namespace ScriptStore

variable {clock : Readings} {now : Moment} {s : Keyspace} {key : String} {e : Entry}

namespace Keyspace

/-! ## The first lookup -/

/-- A live key holds something already. -/
theorem ensure_of_live? (h : s.live? now key = some e) (data : Data) :
    s.ensure now key data = s := by
  rw [ensure, lookup_eq_of_live? h]

theorem ensure_of_live?_none (h : s.live? now key = none) (data : Data) :
    s.ensure now key data = (s.lookup now key).2.insert key (.lasting data) := by
  rw [ensure, lookup_eq_of_live?_none h]

theorem live?_insert_self (now : Moment) (s : Keyspace) (key : String) (data : Data) :
    (s.insert key (.lasting data)).live? now key = some (.lasting data) := by
  rw [live?_insert (Entry.expired_lasting data now), if_pos rfl]

/-- Seeing to it that a key holds something does nothing to a live key, and gives any other key data
that does not expire. -/
theorem ensure_cases (now : Moment) (s : Keyspace) (key : String) (data : Data) :
    s.ensure now key data = s ∨
      ∀ later, (s.ensure now key data).live? later key = some (.lasting data) := by
  cases hf : s.live? now key with
  | none =>
    rw [ensure_of_live?_none hf]
    exact .inr fun later => live?_insert_self later _ key data
  | some e => exact .inl (ensure_of_live? hf data)

end Keyspace

/-! ## Additions -/

/-- An addition: what an empty container is, and what becomes of data together with the number of
new members. Only data of the right type can be added to, and the empty container is. -/
structure Addition where
  fresh : Data
  add : Data → Option (Nat × Data)
  add_fresh : (add fresh).isSome

namespace Addition

/-- Members for a set. -/
def members (members : List String) : Addition where
  fresh := .set ∅
  add
    | .set old => some ((old.insertMany members).size - old.size, .set (old.insertMany members))
    | _ => none
  add_fresh := rfl

/-- Scores for members of a sorted set. -/
def scores (pairs : List (Float × String)) : Addition where
  fresh := .sortedSet ∅
  add
    | .sortedSet old =>
      let new := old.insertMany (pairs.map fun pair => (pair.2, pair.1))
      some (new.size - old.size, .sortedSet new)
    | _ => none
  add_fresh := rfl

end Addition

namespace Keyspace

/-- Adds to what a key holds. -/
def grow (clock : Readings) (s : Keyspace) (key : String) (a : Addition) : Outcome :=
  match (s.ensure (clock 0) key a.fresh).lookup (clock 1) key with
  | (none, s) => (.error .wrongType, s)
  | (some e, s) =>
    match a.add e.data with
    | none => (.error .wrongType, s)
    | some (n, data) => (.ok (.count n), s.insert key { e with data })

theorem setAdd_eq_grow (clock : Readings) (s : Keyspace) (key : String) (members : List String) :
    s.setAdd clock key members = s.grow clock key (.members members) := by
  unfold setAdd grow Addition.members
  rcases (s.ensure (clock 0) key (.set ∅)).lookup (clock 1) key with ⟨_ | ⟨data, deadline⟩, t⟩
  · rfl
  · cases data <;> rfl

theorem sortedAdd_eq_grow (clock : Readings) (s : Keyspace) (key : String)
    (pairs : List (Float × String)) :
    s.sortedAdd clock key pairs = s.grow clock key (.scores pairs) := by
  unfold sortedAdd grow Addition.scores
  rcases (s.ensure (clock 0) key (.sortedSet ∅)).lookup (clock 1) key with
    ⟨_ | ⟨data, deadline⟩, t⟩
  · rfl
  · cases data <;> rfl

end Keyspace

end ScriptStore
