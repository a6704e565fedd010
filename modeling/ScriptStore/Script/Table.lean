import Std.Data.TreeMap
import ScriptStore.Script.Value

/-!
# Tables

A table holds values under keys. Its length is only settled if its items leave no gap; where they
do, it depends on the room that the table has set aside for items, so a table keeps its `Room`.

* `Room` — the places of a table; `Room.reckon` allots them anew when a key finds none.
* `Table.get`, `Table.set`, `Table.item`, `Table.next?` — what is under a key, and behind one.
* `Table.sized`, `Table.fill`, `Table.ofList` — tables of items.
* `Table.length` — the length.
-/

namespace ScriptStore.Script

/-! ## Room -/

/-- The places of a table: one for each index from 1 to `slots`, and `nodes` for all other keys, of
which `loose` are taken. -/
structure Room where
  slots : Nat
  nodes : Nat
  loose : Nat
  deriving DecidableEq, Repr

namespace Room

/-- How many places there are for so many keys that are no indices: a power of two, or none. -/
def nodesFor (keys : Nat) : Nat := if keys = 0 then 0 else keys.nextPowerOfTwo

/-- How many slots suit a table that holds these indices: the greatest power of two more than half
of which would be taken. -/
def slotsFor (indices : List Nat) : Nat :=
  let suits (n : Nat) : Bool := n / 2 < indices.countP (· ≤ n)
  let candidates := (List.range (indices.length.log2 + 2)).map (2 ^ ·)
  (candidates.filter suits).getLast?.getD 0

/-- Room with so many slots for a table of `size` keys, these indices among them. -/
def withSlots (slots nodes : Nat) (indices : List Nat) (size : Nat) : Room :=
  ⟨slots, nodes, size - indices.countP (· ≤ slots)⟩

/-- Room for a table of `size` keys, these indices among them, and no more. -/
def reckon (indices : List Nat) (size : Nat) : Room :=
  let slots := slotsFor indices
  let loose := size - indices.countP (· ≤ slots)
  ⟨slots, nodesFor loose, loose⟩

end Room

/-! ## Values under keys -/

/-- A table. No key is bound to `nil`. -/
structure Table where
  entries : Std.TreeMap Key Val Key.order
  metatable : Option Nat
  room : Room

/-- The index that a key is, if it is one. -/
def Key.index? : Key → Option Nat
  | int n => if 0 < n then some n.toInt.toNat else none
  | _ => none

/-- Whether a key has a slot. -/
def Room.hasSlot (room : Room) (k : Key) : Bool := k.index?.any (· ≤ room.slots)

namespace Table

/-- A table with nothing in it, and room for so many items and other keys. -/
def sized (items others : Nat) : Table := ⟨∅, none, ⟨items, Room.nodesFor others, 0⟩⟩

def empty : Table := sized 0 0

def indices (t : Table) : List Nat := t.entries.keys.filterMap Key.index?

def get (t : Table) (k : Key) : Val := t.entries.getD k .nil

def erase (t : Table) (k : Key) : Table :=
  let size := t.entries.size
  let entries := t.entries.erase k
  let freed := entries.size < size && !t.room.hasSlot k
  { t with entries, room := if freed then { t.room with loose := t.room.loose - 1 } else t.room }

/-- The table with a key bound to a value that is not `nil`. A new key that finds no place makes the
table allot its room anew. -/
def insert (t : Table) (k : Key) (v : Val) : Table :=
  let size := t.entries.size
  let entries := t.entries.insert k v
  let t := { t with entries }
  if entries.size = size || t.room.hasSlot k then t
  else if t.room.loose < t.room.nodes then
    { t with room := { t.room with loose := t.room.loose + 1 } }
  else { t with room := .reckon t.indices entries.size }

/-- Binds a key to a value; `nil` unbinds it. -/
def set (t : Table) (k : Key) (v : Val) : Table :=
  match v with
  | .nil => t.erase k
  | v => t.insert k v

def item (t : Table) (i : Nat) : Val := t.get (.int (Int64.ofNat i))

/-- The first entry behind a key in the order of keys. -/
def next? (t : Table) : Option Key → Option (Key × Val)
  | none => t.entries.minEntry?
  | some k => t.entries.getEntryGT? k

/-- Binds the indices from 1 on to values. -/
def fill (t : Table) (vs : List Val) : Table :=
  vs.zipIdx.foldl (fun t p => t.set (.int (Int64.ofNat (p.2 + 1))) p.1) t

/-- The table with at least so many slots. -/
def widen (t : Table) (slots : Nat) : Table :=
  if slots ≤ t.room.slots then t
  else { t with room := .withSlots slots t.room.nodes t.indices t.entries.size }

/-- Values at the indices from 1 on, with room for no more. -/
def ofList (vs : List Val) : Table := (sized vs.length 0).fill vs

/-! ## Length

A length is an index that holds a value with none right behind it, or 0. Where several indices
qualify, the last slot is looked at first. If it is free, halving finds a place among the slots;
otherwise, and if something stands right behind it, the index is doubled until it holds nothing, and
halving finds the place in between. -/

/-- Halves the distance between an index that counts as held and one that is not. -/
def bisect (t : Table) : Nat → Nat → Nat → Nat
  | 0, low, _ => low
  | fuel + 1, low, high =>
    if high - low ≤ 1 then low
    else
      let middle := (low + high) / 2
      if (t.item middle).isNil then bisect t fuel low middle else bisect t fuel middle high

/-- Doubles an index that holds a value until the doubled one holds none. -/
def searchUp (t : Table) : Nat → Nat → Nat
  | 0, held => held
  | fuel + 1, held =>
    if (t.item (2 * held)).isNil then bisect t 64 held (2 * held) else searchUp t fuel (2 * held)

/-- The length of a table. -/
def length (t : Table) : Nat :=
  let n := t.room.slots
  if 0 < n && (t.item n).isNil then
    if 2 ≤ n && !(t.item (n - 1)).isNil then n - 1 else bisect t 64 0 n
  else if (t.item (n + 1)).isNil then n
  else searchUp t 62 (max n 1)

end Table

end ScriptStore.Script
