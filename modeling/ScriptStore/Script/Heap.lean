import ScriptStore.Script.Table

/-!
# The heap of a script

Variables, tables, functions and failures live in the heap and are known by number. The heap grows
only; it lives as long as the scripts that share it. Its first table holds the global variables.

* `Closure` — a function with its variables.
* `Heap` — everything that is shared by reference; `Heap.newTable`, `Heap.table` and
  `Heap.modifyTable` are about tables, and the other things have functions of the same kind.
-/

namespace ScriptStore.Script

/-- A function with the variables that were in sight where it was made, innermost first. -/
structure Closure where
  function : Function
  scope : List Nat

/-- Everything that is shared by reference. There is a table of global variables at least. -/
structure Heap where
  cells : Array Val
  tables : Array Table
  closures : Array Closure
  failures : Array Bytes
  tables_nonempty : 0 < tables.size

namespace Heap

def globals : Nat := 0

/-- Nothing but global variables and other tables. -/
def ofTables (globals : Table) (others : Array Table) : Heap where
  cells := #[]
  tables := #[globals] ++ others
  closures := #[]
  failures := #[]
  tables_nonempty := by
    simp only [Array.size_append, List.size_toArray, List.length_singleton]
    omega

def newCell (h : Heap) (v : Val) : Nat × Heap :=
  (h.cells.size, { h with cells := h.cells.push v })

def cell (h : Heap) (id : Nat) : Val := h.cells.getD id .nil

def setCell (h : Heap) (id : Nat) (v : Val) : Heap :=
  { h with cells := h.cells.setIfInBounds id v }

def newTable (h : Heap) (t : Table) : Nat × Heap :=
  (h.tables.size, { h with tables := h.tables.push t, tables_nonempty := by simp })

def table (h : Heap) (id : Nat) : Table := h.tables.getD id .empty

def modifyTable (h : Heap) (id : Nat) (f : Table → Table) : Heap :=
  { h with tables := h.tables.modify id f, tables_nonempty := by simp [h.tables_nonempty] }

def newClosure (h : Heap) (c : Closure) : Nat × Heap :=
  (h.closures.size, { h with closures := h.closures.push c })

def closure? (h : Heap) (id : Nat) : Option Closure := h.closures[id]?

def newFailure (h : Heap) (message : Bytes) : Nat × Heap :=
  (h.failures.size, { h with failures := h.failures.push message })

def failure (h : Heap) (id : Nat) : Bytes := h.failures.getD id []

/-- New variables with values, the last one first in the scope. Values that are missing are
`nil`. -/
def declare (h : Heap) (count : Nat) (values : List Val) (scope : List Nat) : List Nat × Heap :=
  match count with
  | 0 => (scope, h)
  | count + 1 =>
    let (id, h) := h.newCell (values.headD .nil)
    declare h count values.tail (id :: scope)

end Heap

end ScriptStore.Script
