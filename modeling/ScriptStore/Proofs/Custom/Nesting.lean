import Mathlib
import ScriptStore.Proofs.Custom.Reply

/-!
# Tables inside each other

The tables of a script may be shared, and may hold themselves. A reply is made of them by looking
into a table for what is inside, and into that again, so it ends in a tree or not at all.

* `Heap.Visits` — what is looked at in a table: its items if it is a list, and what has a name if
  it is a mapping.
* `Heap.NestsFrom` — a value is the first of so many tables each of which is looked at in the one
  before.
* `Val.toReplyWithin_eq_error_iff` — a conversion that may go `d` tables deep fails exactly if the
  value is the first of `d + 1` such tables.
* `reply_fails_iff_nested` — **a reply fails exactly if the value is the first of 65 tables inside
  each other, and nests at most 64 deep otherwise**.
-/

namespace ScriptStore

open Script

variable {h : Heap} {v : Val} {w : Value} {d n id : Nat}

namespace Script

/-! ## What a conversion looks at -/

/-- What is looked at in a table. A table with nothing in it or with something at index 1 is a list:
nothing behind its first gap counts, nor does anything under another key. In any other table the
keys with a name count. -/
inductive Heap.Visits (h : Heap) (id : Nat) : Val → Prop where
  | item {i : Nat} (list : (h.table id).entries.isEmpty = true ∨ (h.table id).item 1 ≠ .nil)
      (pos : 0 < i) (leads : (h.table id).Leads i) : Visits h id ((h.table id).item i)
  | member {k : Key} {name : String} {v : Val} (nonempty : (h.table id).entries.isEmpty = false)
      (first : (h.table id).item 1 = .nil) (entry : (h.table id).entries[k]? = some v)
      (named : k.fieldName? = some name) : Visits h id v

/-- A list is looked at item by item. -/
theorem Heap.visits_iff_mem_items (list : (h.table id).isMapping = false) :
    h.Visits id v ↔ v ∈ (h.table id).items := by
  have hlist := Table.not_isMapping_iff.mp list
  rw [Table.mem_items_iff]
  constructor
  · rintro (⟨-, pos, leads⟩ | ⟨nonempty, first, -, -⟩)
    · exact ⟨_, pos, leads, rfl⟩
    · rw [Table.isMapping_iff.mpr ⟨first, nonempty⟩] at list
      cases list
  · rintro ⟨i, pos, leads, rfl⟩
    exact .item hlist pos leads

/-- A mapping is looked at member by member. -/
theorem Heap.visits_iff_mem_members (mapping : (h.table id).isMapping = true) :
    h.Visits id v ↔ ∃ name, (name, v) ∈ (h.table id).members := by
  obtain ⟨hfirst, hnonempty⟩ := Table.isMapping_iff.mp mapping
  constructor
  · rintro (⟨list, -, -⟩ | ⟨-, -, entry, named⟩)
    · rw [Table.not_isMapping_iff.mpr list] at mapping
      cases mapping
    · exact ⟨_, Table.mem_members_iff_exists_key.mpr ⟨_, entry, named⟩⟩
  · rintro ⟨name, hmember⟩
    obtain ⟨k, entry, named⟩ := Table.mem_members_iff_exists_key.mp hmember
    exact .member hnonempty hfirst entry named

/-- A value is the first of `n` tables, each of which is looked at in the one before. -/
def Heap.NestsFrom (h : Heap) (v : Val) (n : Nat) : Prop :=
  ∃ ids : List Nat, ids.length = n ∧ ids.head?.map .table = some v ∧
    ids.IsChain fun outer inner => h.Visits outer (.table inner)

theorem Heap.nestsFrom_one_iff : h.NestsFrom v 1 ↔ ∃ id, v = .table id := by
  constructor
  · rintro ⟨ids, -, hhead, -⟩
    obtain ⟨id, -, rfl⟩ := Option.map_eq_some_iff.mp hhead
    exact ⟨id, rfl⟩
  · rintro ⟨id, rfl⟩
    exact ⟨[id], rfl, rfl, List.isChain_singleton id⟩

theorem Heap.nestsFrom_succ_iff :
    h.NestsFrom v (n + 2) ↔ ∃ id w, v = .table id ∧ h.Visits id w ∧ h.NestsFrom w (n + 1) := by
  constructor
  · rintro ⟨_ | ⟨outer, _ | ⟨inner, ids⟩⟩, hlength, hhead, hchain⟩
    · simp at hlength
    · simp at hlength
    · obtain ⟨hvisits, hrest⟩ := List.isChain_cons_cons.mp hchain
      refine ⟨outer, .table inner, (Option.some.inj hhead).symm, hvisits, inner :: ids, ?_, rfl,
        hrest⟩
      simpa using hlength
  · rintro ⟨outer, w, rfl, hvisits, _ | ⟨inner, ids⟩, hlength, hhead, hchain⟩
    · simp at hlength
    · cases Option.some.inj hhead
      refine ⟨outer :: inner :: ids, ?_, rfl, List.isChain_cons_cons.mpr ⟨hvisits, hchain⟩⟩
      simpa using hlength

/-! ## When a conversion fails -/

theorem map_eq_error_iff {α β ε : Type} {f : α → β} {x : Except ε α} {e : ε} :
    x.map f = .error e ↔ x = .error e := by
  cases x <;> simp [Except.map]

namespace Val

/-- A table is too deep exactly if something is that is looked at in it. -/
theorem toReplyWithin_succ_eq_error_iff :
    (Val.table id).toReplyWithin h (d + 1) = .error .replyTooDeep ↔
      ∃ v, h.Visits id v ∧ v.toReplyWithin h d = .error .replyTooDeep := by
  rw [toReplyWithin_table]
  split
  · rename_i hmapping
    have heach : ∀ member ∈ (h.table id).members,
        (∃ field, memberToReply h d member = .ok field) ∨
          memberToReply h d member = .error .replyTooDeep := fun member _ =>
      memberToReply_of_cases (toReplyWithin_cases h d member.2)
    rw [map_eq_error_iff, mapM_eq_error_iff heach]
    simp only [Heap.visits_iff_mem_members hmapping, memberToReply_eq_error_iff]
    constructor
    · rintro ⟨member, hmember, hdeep⟩
      exact ⟨member.2, ⟨member.1, hmember⟩, hdeep⟩
    · rintro ⟨v, ⟨name, hmember⟩, hdeep⟩
      exact ⟨(name, v), hmember, hdeep⟩
  · rename_i hlist
    rw [Bool.not_eq_true] at hlist
    rw [map_eq_error_iff, mapM_eq_error_iff fun v _ => toReplyWithin_cases h d v]
    simp only [Heap.visits_iff_mem_items hlist]

/-- Nothing but a table is too deep. -/
theorem toReplyWithin_ok_of_not_table (scalar : ∀ id, v ≠ .table id) (h : Heap) (d : Nat) :
    ∃ w, v.toReplyWithin h d = .ok w ∧ w.children = [] := by
  cases v with
  | table id => exact absurd rfl (scalar id)
  | bool b => cases b <;> cases d <;> exact ⟨_, rfl, rfl⟩
  | _ => cases d <;> exact ⟨_, rfl, rfl⟩

/-- **A conversion fails exactly if the value is the first of more tables than may nest.** -/
theorem toReplyWithin_eq_error_iff (h : Heap) (d : Nat) (v : Val) :
    v.toReplyWithin h d = .error .replyTooDeep ↔ h.NestsFrom v (d + 1) := by
  induction d generalizing v with
  | zero =>
    rw [Heap.nestsFrom_one_iff]
    by_cases hv : ∃ id, v = .table id
    · obtain ⟨id, rfl⟩ := hv
      exact iff_of_true rfl ⟨id, rfl⟩
    · obtain ⟨w, hok, -⟩ := toReplyWithin_ok_of_not_table (not_exists.mp hv) h 0
      exact iff_of_false (by simp [hok]) hv
  | succ d ih =>
    rw [Heap.nestsFrom_succ_iff]
    by_cases hv : ∃ id, v = .table id
    · obtain ⟨id, rfl⟩ := hv
      rw [toReplyWithin_succ_eq_error_iff]
      constructor
      · rintro ⟨w, hvisits, hdeep⟩
        exact ⟨id, w, rfl, hvisits, (ih w).mp hdeep⟩
      · rintro ⟨id', w, heq, hvisits, hnests⟩
        cases heq
        exact ⟨w, hvisits, (ih w).mpr hnests⟩
    · obtain ⟨w, hok, -⟩ := toReplyWithin_ok_of_not_table (not_exists.mp hv) h (d + 1)
      apply iff_of_false (by simp [hok])
      rintro ⟨id, w, rfl, -⟩
      exact hv ⟨id, rfl⟩

/-! ## How deep a reply is -/

/-- What is right inside the reply of a table is the reply of something. -/
theorem exists_of_child {child : Value}
    (ok : (Val.table id).toReplyWithin h (d + 1) = .ok w) (mem : child ∈ w.children) :
    ∃ v : Val, v.toReplyWithin h d = .ok child := by
  rcases toReplyWithin_table_cases ok with ⟨items, rfl, -, hitems⟩ | ⟨pairs, rfl, -, hmembers⟩
  · obtain ⟨v, -, hreply⟩ := (mem_iff_of_mapM hitems).mp mem
    exact ⟨v, hreply⟩
  · obtain ⟨field, hfield, rfl⟩ := List.mem_map.mp mem
    obtain ⟨member, -, hreply⟩ :=
      (mem_iff_of_mapM hmembers).mp (Fields.mem_of_mem_ofPairs hfield)
    exact ⟨member.2, (memberToReply_eq_ok_iff.mp hreply).2⟩

/-- **A reply nests no deeper than the conversion may go.** -/
theorem depth_le_of_toReplyWithin (ok : v.toReplyWithin h d = .ok w) : w.depth ≤ d := by
  induction d generalizing v w with
  | zero =>
    cases v with
    | table id => cases ok
    | bool b => cases b <;> cases ok <;> exact Nat.le_refl _
    | _ => cases ok; exact Nat.le_refl _
  | succ d ih =>
    apply Value.depth_le_succ_iff.mpr
    intro child hchild
    by_cases hv : ∃ id, v = .table id
    · obtain ⟨id, rfl⟩ := hv
      obtain ⟨inner, hinner⟩ := exists_of_child ok hchild
      exact ih hinner
    · obtain ⟨w', hok, hscalar⟩ := toReplyWithin_ok_of_not_table (not_exists.mp hv) h (d + 1)
      rw [hok] at ok
      cases ok
      rw [hscalar] at hchild
      cases hchild

end Val

end Script

/-- **A reply always ends, and fails exactly on what nests too deep**: it fails if and only if the
value is the first of 65 tables each of which is looked at in the one before, and is a value of at
most 64 containers inside each other otherwise. Looking through the items of a table ends, too: it
stops at the first gap, and after no more items than the table has entries. -/
theorem reply_fails_iff_nested (h : Heap) (v : Val) :
    (v.toReply h = .error .replyTooDeep ↔ h.NestsFrom v 65) ∧
      ScriptFault.replyTooDeep.message = "reply table nested too deeply" ∧
      (¬ h.NestsFrom v 65 → ∃ w, v.toReply h = .ok w ∧ w.depth ≤ 64) ∧
      ∀ id, (h.table id).Runs (h.table id).items.length ∧
        (h.table id).items.length ≤ (h.table id).entries.size := by
  have hfails : v.toReply h = .error .replyTooDeep ↔ h.NestsFrom v 65 :=
    v.toReplyWithin_eq_error_iff h replyDepth
  refine ⟨hfails, rfl, ?_, fun id => ⟨(h.table id).runs_items, (h.table id).length_items_le⟩⟩
  intro shallow
  obtain ⟨w, hok⟩ := (v.toReplyWithin_cases h replyDepth).resolve_right (mt hfails.mp shallow)
  exact ⟨w, hok, Val.depth_le_of_toReplyWithin hok⟩

/-- A table that holds itself. -/
def selfHolding : Heap :=
  .ofTables ((Table.empty.set (.ofString "x") (.int 1)).set (.ofString "self") (.table 0)) #[]

theorem reply_of_self_holding_fails :
    (Val.table 0).toReply selfHolding = .error .replyTooDeep ∧
      selfHolding.NestsFrom (.table 0) 65 := by
  have hentry : (selfHolding.table 0).entries[Key.ofString "self"]? = some (.table 0) := by cbv
  have hvisits : selfHolding.Visits 0 (.table 0) :=
    .member (by cbv) (by cbv) hentry rfl
  have hnests : selfHolding.NestsFrom (.table 0) 65 :=
    ⟨List.replicate 65 0, List.length_replicate, rfl, List.isChain_replicate_of_rel 65 hvisits⟩
  exact ⟨(reply_fails_iff_nested selfHolding (.table 0)).1.mpr hnests, hnests⟩

end ScriptStore
