import ScriptStore.Script.Library.Argument

/-!
# The functions on tables

`concat`, `insert`, `unpack` and `sort`. They go through the items of a table from one index to
another, and see them as the language does, through metatables.
-/

namespace ScriptStore.Script.Library

open Routine

/-- The length of a table argument. -/
def itemCount (c : Call) : Routine (Nat × Int) := do
  let id ← c.table 1
  match ← lengthOf (.table id) with
  | .int n => return (id, n.toInt)
  | _ => failMessage "object length is not an integer"

/-- The items at `count` indices from one on. -/
def itemsFrom (object : Val) : Nat → Int → Routine (List Val)
  | 0, _ => return []
  | count + 1, i => do
    let v ← index object (intVal i)
    let rest ← itemsFrom object count (i + 1)
    return v :: rest

/-- The items at `count` indices from one on, which must be strings or numbers. -/
def textsFrom (object : Val) : Nat → Int → Routine (List Bytes)
  | 0, _ => return []
  | count + 1, i => do
    let v ← index object (intVal i)
    match v.toBytes? with
    | some s =>
      let rest ← textsFrom object count (i + 1)
      return s :: rest
    | none =>
      failMessage ("invalid value (at index " ++ toString i ++ ") in table for 'concat'")

/-- The items of a table joined, with a separator between. -/
def concatItems (c : Call) : Routine (List Val) := do
  let (id, n) ← itemCount c
  let separator ← if (c.arg 2).isNil then pure [] else c.string 2
  let first ← c.integerOr 3 1
  let last ← c.integerOr 4 n
  let texts ← textsFrom (.table id) (last - first + 1).toNat first
  return [.str (texts.intersperse separator).flatten]

/-- Moves `count` items up to `last` one index up, the last one first. -/
def shiftUp (object : Val) : Nat → Int → Routine Unit
  | 0, _ => return ()
  | count + 1, last => do
    let v ← index object (intVal last)
    store object (intVal (last + 1)) v
    shiftUp object count (last - 1)

/-- Puts an item behind the last one, or at an index. -/
def insertItem (c : Call) : Routine (List Val) := do
  let (id, n) ← itemCount c
  match c.args.length with
  | 2 =>
    store (.table id) (intVal (n + 1)) (c.arg 2)
    return []
  | 3 =>
    let place ← c.integer 2
    if 1 ≤ place ∧ place ≤ n + 1 then
      shiftUp (.table id) (n + 1 - place).toNat n
      store (.table id) (intVal place) (c.arg 3)
      return []
    else c.fail 2 "position out of bounds"
  | _ => failMessage "wrong number of arguments to 'insert'"

/-- How many values a call can take or give. -/
def resultLimit : Int := 1000000

/-- The items of a table as results. -/
def unpackItems (c : Call) : Routine (List Val) := do
  let first ← c.integerOr 2 1
  let last ←
    if (c.arg 3).isNil then
      match ← lengthOf (c.arg 1) with
      | .int n => pure n.toInt
      | _ => failMessage "object length is not an integer"
    else c.integer 3
  if resultLimit ≤ last - first then failMessage "too many results to unpack"
  else itemsFrom (c.arg 1) (last - first + 1).toNat first

/-! ## Sorting

The items between two indices are split by the middle one of three: those less than it come before
it, those greater behind it, and either part is sorted in turn. An order that is none is noticed
when it leads out of the part. -/

/-- A table that is being sorted: the table and the order, if one was given. -/
structure Sorting where
  object : Val
  order : Val

namespace Sorting

def item (s : Sorting) (i : Int) : Routine Val := index s.object (intVal i)

def before (s : Sorting) (a b : Val) : Routine Bool :=
  match s.order with
  | .nil => lift (Val.less false a b)
  | f => do return ((← call f [a, b]).headD .nil).truthy

def put2 (s : Sorting) (i : Int) (a : Val) (j : Int) (b : Val) : Routine Unit := do
  store s.object (intVal i) a
  store s.object (intVal j) b

/-- Exchanges the items at two indices if the second comes before the first. -/
def exchange (s : Sorting) (i j : Int) : Routine Bool := do
  let a ← s.item i
  let b ← s.item j
  if ← s.before b a then
    s.put2 i b j a
    return true
  else return false

def failOrder {α : Type} : Routine α := failMessage "invalid order function for sorting"

/-- The first index from `i` on whose item does not come before the pivot. -/
def scanUp (s : Sorting) (pivot : Val) (high : Int) : Nat → Int → Routine (Int × Val)
  | 0, _ => failOrder
  | fuel + 1, i => do
    let v ← s.item i
    if ← s.before v pivot then
      if i = high - 1 then failOrder else scanUp s pivot high fuel (i + 1)
    else return (i, v)

/-- The last index up to `j` whose item the pivot does not come before. -/
def scanDown (s : Sorting) (pivot : Val) (low : Int) : Nat → Int → Routine (Int × Val)
  | 0, _ => failOrder
  | fuel + 1, j => do
    let v ← s.item j
    if ← s.before pivot v then
      if j < low then failOrder else scanDown s pivot low fuel (j - 1)
    else return (j, v)

/-- Splits the items between two indices by the pivot, which stands before the last; the answer is
where it comes to stand. -/
def partition (s : Sorting) (pivot : Val) (high : Int) : Nat → Int → Int → Routine Int
  | 0, _, _ => failOrder
  | fuel + 1, i, j => do
    let (i, a) ← s.scanUp pivot high (high - i + 1).toNat (i + 1)
    let (j, b) ← s.scanDown pivot i ((j - i).toNat + 3) (j - 1)
    if j < i then
      let last ← s.item (high - 1)
      s.put2 (high - 1) a i last
      return i
    else
      s.put2 i b j a
      partition s pivot high fuel i j

/-- Sorts the items between two indices. -/
def range (s : Sorting) : Nat → Int → Int → Routine Unit
  | 0, _, _ => return ()
  | fuel + 1, low, high => do
    if high ≤ low then return ()
    let _ ← s.exchange low high
    if high - low = 1 then return ()
    let middle := (low + high) / 2
    unless ← s.exchange low middle do
      let _ ← s.exchange middle high
    if high - low = 2 then return ()
    let pivot ← s.item middle
    let last ← s.item (high - 1)
    s.put2 middle last (high - 1) pivot
    let p ← s.partition pivot high (high - low).toNat low (high - 1)
    if p - low < high - p then
      range s fuel low (p - 1)
      range s fuel (p + 1) high
    else
      range s fuel (p + 1) high
      range s fuel low (p - 1)

end Sorting

def sortItems (c : Call) : Routine (List Val) := do
  let (id, n) ← itemCount c
  if n ≤ 1 then return []
  let order ← match c.arg 2 with
    | .nil => pure Val.nil
    | .closure f => pure (.closure f)
    | .builtin b => pure (.builtin b)
    | _ => c.failType 2 "function"
  Sorting.range ⟨.table id, order⟩ (n.toNat + 1) 1 n
  return []

end ScriptStore.Script.Library
