import ScriptStore.Proofs.Custom.Conversion

/-!
# What a value adds to the heap

A value that a script is given becomes new tables, and nothing else changes.

* `Heap.Gains` — a heap has gained tables, and has what it has had.
* `Value.gains_toScript` — **a value that a script is given adds tables and changes nothing**.
* `Value.toScript_eq_nil_iff` — only `nil` becomes `nil`.
-/

namespace ScriptStore

open Script

/-! ## Heaps that grow -/

namespace Script.Heap

/-- A heap has gained tables, and everything else is as before. -/
structure Gains (h h' : Heap) : Prop where
  cells : h'.cells = h.cells
  closures : h'.closures = h.closures
  failures : h'.failures = h.failures
  size : h.tables.size ≤ h'.tables.size
  table : ∀ id < h.tables.size, h'.table id = h.table id

namespace Gains

variable {h h' h'' : Heap}

theorem refl (h : Heap) : h.Gains h := ⟨rfl, rfl, rfl, Nat.le_refl _, fun _ _ => rfl⟩

theorem trans (first : h.Gains h') (second : h'.Gains h'') : h.Gains h'' where
  cells := second.cells.trans first.cells
  closures := second.closures.trans first.closures
  failures := second.failures.trans first.failures
  size := Nat.le_trans first.size second.size
  table id hid := (second.table id (Nat.lt_of_lt_of_le hid first.size)).trans (first.table id hid)

theorem newTable (h : Heap) (t : Table) : h.Gains (h.newTable t).2 where
  cells := rfl
  closures := rfl
  failures := rfl
  size := by simp [Heap.newTable]
  table id hid := by rw [table_newTable, if_neg (Nat.ne_of_lt hid)]

end Gains

end Script.Heap

/-! ## Values -/

mutual

/-- **A value that a script is given adds tables and changes nothing.** -/
theorem Value.gains_toScript (v : Value) (h : Heap) : h.Gains (v.toScript h).2 := by
  cases v with
  | sequence items => exact (gains_itemsToScript items h).trans (.newTable _ _)
  | mapping members => exact (gains_membersToScript members h).trans (.newTable _ _)
  | _ => exact .refl h

theorem gains_itemsToScript (items : List Value) (h : Heap) :
    h.Gains (itemsToScript items h).2 := by
  cases items with
  | nil => exact .refl h
  | cons item items => exact (item.gains_toScript h).trans (gains_itemsToScript items _)

theorem gains_membersToScript (members : List (String × Value)) (h : Heap) :
    h.Gains (membersToScript members h).2 := by
  cases members with
  | nil => exact .refl h
  | cons member members =>
    obtain ⟨name, v⟩ := member
    exact (v.gains_toScript h).trans (gains_membersToScript members _)

end

/-- Only `nil` becomes `nil`. -/
theorem Value.toScript_eq_nil_iff (v : Value) (h : Heap) :
    (v.toScript h).1 = .nil ↔ v = .nil := by
  cases v <;> simp [Value.toScript, Val.ofString]

end ScriptStore
