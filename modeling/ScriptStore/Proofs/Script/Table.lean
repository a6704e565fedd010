import Mathlib.Data.List.Induction
import Mathlib.Tactic.Common
import ScriptStore.Custom.Conversion

/-!
# What tables hold

Keys are told apart by their order, so a table holds under a key what was last put there, and a
table that is filled with values holds these at the indices from 1 on and nothing else.

* `Key.order` is an order in which only equal keys compare as such.
* `Table.get_set` — a table after a value has been put under a key.
* `Table.Lists` — a table holds a list of values at the indices from 1 on, and nothing else;
  `Table.Lists.fill` — filling an empty table makes it so, and `Table.Lists.items` reads them back.
* `Heap.table_newTable`, `Heap.table_modifyTable` — the tables of a heap after a change.
-/

namespace ScriptStore.Script

variable {k k' : Key} {t : Table} {v w : Val} {vs : List Val} {h : Heap} {i id : Nat}

/-! ## Keys -/

theorem Builtin.eq_of_ctorIdx {b b' : Builtin} (h : b.ctorIdx = b'.ctorIdx) : b = b' := by
  cases b <;> cases b' <;> first | rfl | cases h

namespace Key

instance : Std.TransCmp Key.order :=
  inferInstanceAs (Std.TransCmp (compareLex (compareOn kind)
    (compareLex (compareOn word) (compareOn content))))

/-- Keys of one kind are told apart by their word and their content. -/
theorem eq_of_parts (hkind : k.kind = k'.kind) (hword : k.word = k'.word)
    (hcontent : k.content = k'.content) : k = k' := by
  cases k <;> cases k' <;> try cases hkind
  case bool.bool b b' => cases b <;> cases b' <;> first | rfl | cases hword
  case int.int n n' => rw [Int64.toInt_inj.mp hword]
  case float.float b b' =>
    have hbits : b.toNat = b'.toNat := Int.ofNat.inj hword
    rw [UInt64.toNat_inj.mp hbits]
  case str.str s s' => rw [show s = s' from hcontent]
  case builtin.builtin b b' => rw [Builtin.eq_of_ctorIdx (Int.ofNat.inj hword)]
  all_goals exact congrArg _ (Int.ofNat.inj hword)

instance : Std.LawfulEqCmp Key.order where
  compare_self := Std.ReflCmp.compare_self
  eq_of_compare {k k'} h := by
    unfold order at h
    rw [compareLex_eq_eq, compareLex_eq_eq] at h
    obtain ⟨hkind, hword, hcontent⟩ := h
    exact eq_of_parts (Std.compare_eq_iff_eq.mp hkind) (Std.compare_eq_iff_eq.mp hword)
      (Std.compare_eq_iff_eq.mp hcontent)

theorem toInt_ofNat_of_lt (h : i < 2 ^ 63) : (Int64.ofNat i).toInt = i :=
  Int64.toInt_ofNat_of_lt h

/-- An index is a positive number of 64 bits. -/
theorem index?_eq_some_iff :
    k.index? = some i ↔ 0 < i ∧ i < 2 ^ 63 ∧ k = .int (Int64.ofNat i) := by
  constructor
  · intro hk
    cases k with
    | int n =>
      simp only [index?] at hk
      split at hk
      · rename_i hpos
        cases hk
        have hn : 0 < n.toInt := by simpa [Int64.lt_iff_toInt_lt] using hpos
        have hlt := n.toInt_lt
        refine ⟨by omega, by omega, congrArg Key.int (Int64.toInt_inj.mp ?_)⟩
        rw [toInt_ofNat_of_lt (by omega)]
        omega
      · cases hk
    | _ => cases hk
  · rintro ⟨hpos, hlt, rfl⟩
    have hint := toInt_ofNat_of_lt hlt
    have hn : (0 : Int64) < Int64.ofNat i := by
      rw [Int64.lt_iff_toInt_lt, hint]
      simpa using hpos
    simp [index?, hn, hint]

end Key

/-! ## Values under keys -/

namespace Table

theorem get_eq (t : Table) (k : Key) : t.get k = t.entries[k]?.getD .nil :=
  Std.TreeMap.getD_eq_getD_getElem?

@[simp] theorem entries_insert (t : Table) (k : Key) (v : Val) :
    (t.insert k v).entries = t.entries.insert k v := by
  simp only [insert]
  split
  · rfl
  · split <;> rfl

@[simp] theorem metatable_insert (t : Table) (k : Key) (v : Val) :
    (t.insert k v).metatable = t.metatable := by
  simp only [insert]
  split
  · rfl
  · split <;> rfl

theorem set_of_ne_nil (h : v ≠ .nil) (t : Table) (k : Key) : t.set k v = t.insert k v := by
  unfold set
  split
  · exact (h rfl).elim
  · rfl

@[simp] theorem metatable_set (t : Table) (k : Key) (v : Val) :
    (t.set k v).metatable = t.metatable := by
  unfold set
  split
  · rfl
  · exact metatable_insert t k v

/-- A table holds what was last put under a key, and elsewhere what it held before. -/
theorem get_set (t : Table) (k k' : Key) (v : Val) :
    (t.set k v).get k' = if k' = k then v else t.get k' := by
  by_cases hv : v = .nil
  · subst hv
    have herase : (t.set k .nil).entries = t.entries.erase k := rfl
    rw [get_eq, get_eq, herase, Std.TreeMap.getElem?_erase]
    simp only [Std.LawfulEqCmp.compare_eq_iff_eq, eq_comm (a := k)]
    split <;> rfl
  · rw [set_of_ne_nil hv, get_eq, get_eq, entries_insert, Std.TreeMap.getElem?_insert]
    simp only [Std.LawfulEqCmp.compare_eq_iff_eq, eq_comm (a := k)]
    split <;> rfl

/-! ## Lists in tables -/

/-- A table holds these values at the indices from 1 on, and nothing else. -/
structure Lists (t : Table) (vs : List Val) : Prop where
  entries : ∀ k : Key, t.entries[k]? = k.index?.bind fun i => vs[i - 1]?
  size : t.entries.size = vs.length

theorem Lists.nil (h : t.entries = ∅) : t.Lists [] := by
  refine ⟨fun k => ?_, by rw [h]; rfl⟩
  rw [h, Std.TreeMap.getElem?_emptyc]
  cases k.index? <;> rfl

theorem Lists.snoc (h : t.Lists vs) (hv : v ≠ .nil) (short : vs.length + 1 < 2 ^ 63) :
    (t.set (.int (Int64.ofNat (vs.length + 1))) v).Lists (vs ++ [v]) := by
  rw [set_of_ne_nil hv]
  have hlast : Key.index? (.int (Int64.ofNat (vs.length + 1))) = some (vs.length + 1) :=
    Key.index?_eq_some_iff.mpr ⟨Nat.succ_pos _, short, rfl⟩
  refine ⟨fun k => ?_, ?_⟩
  · rw [entries_insert, Std.TreeMap.getElem?_insert]
    simp only [Std.LawfulEqCmp.compare_eq_iff_eq]
    split
    · rename_i hk
      rw [← hk, hlast]
      simp
    · rename_i hk
      rw [h.entries]
      cases hi : k.index? with
      | none => rfl
      | some i =>
        obtain ⟨hpos, -, hki⟩ := Key.index?_eq_some_iff.mp hi
        have hne : i ≠ vs.length + 1 := fun heq => hk (by rw [hki, heq])
        simp only [Option.bind_some]
        rcases Nat.lt_or_gt_of_ne hne with hlt | hgt
        · rw [List.getElem?_append_left (by omega)]
        · rw [List.getElem?_eq_none (by omega), List.getElem?_eq_none (by simp; omega)]
  · have hfresh : (.int (Int64.ofNat (vs.length + 1)) : Key) ∉ t.entries := by
      rw [← Std.TreeMap.isSome_getElem?_iff_mem, h.entries, hlast]
      simp
    rw [entries_insert, Std.TreeMap.size_insert, if_neg (by simpa using hfresh), h.size]
    simp

theorem fill_snoc (t : Table) (vs : List Val) (v : Val) :
    t.fill (vs ++ [v]) = (t.fill vs).set (.int (Int64.ofNat (vs.length + 1))) v := by
  simp [fill, List.zipIdx_append]

/-- **An empty table that is filled with values holds these and nothing else.** -/
theorem Lists.fill (h : t.entries = ∅) (vs : List Val) :
    (∀ v ∈ vs, v ≠ .nil) → vs.length < 2 ^ 63 → (t.fill vs).Lists vs := by
  induction vs using List.reverseRecOn with
  | nil => exact fun _ _ => .nil h
  | append_singleton vs v ih =>
    intro hnil short
    rw [List.length_append, List.length_singleton] at short
    rw [fill_snoc]
    have hlists := ih (fun w hw => hnil w (List.mem_append_left _ hw)) (by omega)
    exact hlists.snoc (hnil v (by simp)) short

@[simp] theorem metatable_fill (t : Table) (vs : List Val) :
    (t.fill vs).metatable = t.metatable := by
  induction vs using List.reverseRecOn with
  | nil => rfl
  | append_singleton vs v ih => rw [fill_snoc, metatable_set, ih]

theorem Lists.ofList (hnil : ∀ v ∈ vs, v ≠ .nil) (short : vs.length < 2 ^ 63) :
    (Table.ofList vs).Lists vs :=
  .fill rfl vs hnil short

@[simp] theorem metatable_ofList (vs : List Val) : (Table.ofList vs).metatable = none :=
  metatable_fill _ _

/-- A list holds nothing under a key that is no index. -/
theorem Lists.get_of_index? (h : t.Lists vs) (hk : k.index? = none) : t.get k = .nil := by
  rw [get_eq, h.entries, hk]
  rfl

theorem Lists.item (h : t.Lists vs) (hpos : 0 < i) (hlt : i < 2 ^ 63) :
    t.item i = vs[i - 1]?.getD .nil := by
  have hindex : Key.index? (.int (Int64.ofNat i)) = some i :=
    Key.index?_eq_some_iff.mpr ⟨hpos, hlt, rfl⟩
  rw [Table.item, get_eq, h.entries, hindex]
  rfl

end Table

/-! ## Tables of a heap -/

namespace Heap

theorem table_newTable (h : Heap) (t : Table) (id : Nat) :
    (h.newTable t).2.table id = if id = h.tables.size then t else h.table id := by
  simp only [table, newTable, Array.getD_eq_getD_getElem?, Array.getElem?_push]
  split <;> rfl

theorem table_modifyTable (h : Heap) (id id' : Nat) (f : Table → Table)
    (hid : id < h.tables.size) :
    (h.modifyTable id f).table id' = if id' = id then f (h.table id) else h.table id' := by
  simp only [table, modifyTable, Array.getD_eq_getD_getElem?, Array.getElem?_modify]
  by_cases heq : id = id'
  · subst heq
    simp [hid]
  · simp [heq, Ne.symm heq]

/-- A table that is not there cannot be changed. -/
theorem table_modifyTable_of_le (h : Heap) (id id' : Nat) (f : Table → Table)
    (hid : h.tables.size ≤ id) : (h.modifyTable id f).table id' = h.table id' := by
  simp only [table, modifyTable, Array.getD_eq_getD_getElem?, Array.getElem?_modify]
  by_cases heq : id = id'
  · subst heq
    simp [hid]
  · simp [heq]

end Heap

end ScriptStore.Script
