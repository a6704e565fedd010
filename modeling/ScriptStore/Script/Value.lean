import Std.Data.TreeMap
import ScriptStore.Script.Program

/-!
# Values of a script

* `Builtin` — the functions that scripts find in their environment.
* `Val` — values. Tables, closures and failures are identities: numbers that the heap explains.
* `Key` — what a table can hold a value under. A float that is an integer is the same key as that
  integer, `nil` is no key, and neither is the float that is no number.
* `Val.typeName`, `Val.truthy`, `Val.isNil` — what every script can see of a value.
-/

namespace ScriptStore.Script

/-- The functions of the environment. `next` is what `pairs` hands out, `step` what `ipairs` hands
out; `storeCall` and `storeTry` are the two ways to the store. -/
inductive Builtin where
  | type | tostring | tonumber | error | assert | pcall | select | ipairs | pairs | setmetatable
  | print | next | step
  | stringRep | stringFormat | stringSub | stringUpper
  | tableConcat | tableInsert | tableUnpack | tableSort
  | mathType
  | storeCall | storeTry
  deriving DecidableEq, Repr

inductive Val where
  | nil
  | bool (b : Bool)
  | int (n : Int64)
  | float (f : Float)
  | str (s : Bytes)
  | table (id : Nat)
  | closure (id : Nat)
  | builtin (b : Builtin)
  | failure (id : Nat)
  deriving Inhabited

def Number.toVal : Number → Val
  | .int n => .int n
  | .float f => .float f

namespace Val

def ofString (s : String) : Val := .str (bytes s)

def typeName : Val → String
  | nil => "nil"
  | bool _ => "boolean"
  | int _ | float _ => "number"
  | str _ => "string"
  | table _ => "table"
  | closure _ | builtin _ => "function"
  | failure _ => "userdata"

/-- Whether a condition holds: everything but `nil` and `false` does. -/
def truthy : Val → Bool
  | nil | bool false => false
  | _ => true

def isNil : Val → Bool
  | nil => true
  | _ => false

def isFailure : Val → Bool
  | failure _ => true
  | _ => false

end Val

inductive Key where
  | bool (b : Bool)
  | int (n : Int64)
  | float (bits : UInt64)
  | str (s : Bytes)
  | table (id : Nat)
  | closure (id : Nat)
  | builtin (b : Builtin)
  | failure (id : Nat)
  deriving DecidableEq, Repr

namespace Key

/-- The kind of a key, as a number. -/
def kind : Key → Nat
  | bool _ => 0
  | int _ => 1
  | float _ => 2
  | str _ => 3
  | table _ => 4
  | closure _ => 5
  | builtin _ => 6
  | failure _ => 7

/-- What tells keys of a kind apart, strings aside. -/
def word : Key → Int
  | bool b => if b then 1 else 0
  | int n => n.toInt
  | float bits => bits.toNat
  | str _ => 0
  | builtin b => b.ctorIdx
  | table id | closure id | failure id => id

/-- What tells strings apart. -/
def content : Key → Bytes
  | str s => s
  | _ => []

/-- The order of keys: by kind, then by word, then by content. -/
def order : Key → Key → Ordering :=
  compareLex (compareOn kind) (compareLex (compareOn word) (compareOn content))

def toVal : Key → Val
  | bool b => .bool b
  | int n => .int n
  | float bits => .float (Float.ofBits bits)
  | str s => .str s
  | table id => .table id
  | closure id => .closure id
  | builtin b => .builtin b
  | failure id => .failure id

/-- The key that a float is: an integer if it has the value of one of 64 bits. -/
def ofFloat? (f : Float) : Option Key :=
  match Binary64.shape f with
  | .nan => none
  | _ =>
    match (Binary64.toInt? f).bind int64OfInt? with
    | some n => some (.int n)
    | none => some (.float f.toBits)

/-- The key that a value is, if it is one. -/
def ofVal? : Val → Option Key
  | .nil => none
  | .bool b => some (bool b)
  | .int n => some (int n)
  | .float f => ofFloat? f
  | .str s => some (str s)
  | .table id => some (table id)
  | .closure id => some (closure id)
  | .builtin b => some (builtin b)
  | .failure id => some (failure id)

end Key

end ScriptStore.Script
