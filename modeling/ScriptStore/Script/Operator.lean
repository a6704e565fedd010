import ScriptStore.Script.Arithmetic
import ScriptStore.Script.Heap

/-!
# Operators on values

What the operators of the language do with values of any type, short of metatables, and the messages
of their failures.

* `Val.rawEqual` — equality; numbers of either kind are compared by value.
* `Val.arith`, `Val.negate`, `Val.bits`, `Val.complement`, `Val.concat`, `Val.compare` — the others.
  Arithmetic takes strings that read as numbers, concatenation takes numbers.
-/

namespace ScriptStore.Script

namespace Val

def number? : Val → Option Number
  | int n => some (.int n)
  | float f => some (.float f)
  | _ => none

/-- A number, or a string that reads as one. -/
def toNumber? : Val → Option Number
  | str s => Number.ofText? s
  | v => v.number?

/-- An integer, or a number or string with the value of one. -/
def toInt64? (v : Val) : Option Int64 := v.toNumber?.bind Number.toInt64?

/-- A string, or a number as one. -/
def toBytes? : Val → Option Bytes
  | str s => some s
  | v => v.number?.map Number.text

def isString : Val → Bool
  | str _ => true
  | _ => false

/-- Equality without metatables. -/
def rawEqual : Val → Val → Bool
  | nil, nil => true
  | bool a, bool b => a == b
  | str a, str b => a == b
  | table a, table b => a == b
  | closure a, closure b => a == b
  | builtin a, builtin b => a == b
  | failure a, failure b => a == b
  | int m, int n => m == n
  | float f, float g => f == g
  | int m, float g => (Number.int m).compare? (.float g) == some .eq
  | float f, int n => (Number.float f).compare? (.int n) == some .eq
  | _, _ => false

/-! ## Messages -/

/-- The failure of an operation on a value of the wrong type. -/
def misuse (operation : String) (v : Val) : String :=
  "attempt to " ++ operation ++ " a " ++ v.typeName ++ " value"

/-- The first of two operands that is no number. -/
def firstNonNumber (a b : Val) : Val := if a.number?.isSome then b else a

/-- The failure of arithmetic. Where a string takes part, the message names both types. -/
def arithFault (name : String) (a b : Val) : String :=
  if a.isString || b.isString then
    "attempt to " ++ name ++ " a '" ++ a.typeName ++ "' with a '" ++ b.typeName ++ "'"
  else (firstNonNumber a b).misuse "perform arithmetic on"

def bitFault (a b : Val) : String :=
  if a.number?.isSome && b.number?.isSome then "number has no integer representation"
  else (firstNonNumber a b).misuse "perform bitwise operation on"

def compareFault (a b : Val) : String :=
  if a.typeName = b.typeName then "attempt to compare two " ++ a.typeName ++ " values"
  else "attempt to compare " ++ a.typeName ++ " with " ++ b.typeName

/-! ## Operators -/

def arithName : ArithOp → String
  | .add => "add"
  | .sub => "sub"
  | .mul => "mul"
  | .div => "div"
  | .mod => "mod"
  | .pow => "pow"
  | .idiv => "idiv"

def arith (op : ArithOp) (a b : Val) : Except String Val :=
  match a.toNumber?, b.toNumber? with
  | some x, some y => (Number.arith op x y).map Number.toVal
  | _, _ => .error (arithFault (arithName op) a b)

def negate (a : Val) : Except String Val :=
  match a.toNumber? with
  | some x => .ok x.negate.toVal
  | none => .error (arithFault "unm" a a)

/-- An operator on bits. Strings do not count as numbers here. -/
def bits (op : BitOp) (a b : Val) : Except String Val :=
  match a.number?.bind Number.toInt64?, b.number?.bind Number.toInt64? with
  | some m, some n => .ok (.int (Number.bits op m n))
  | _, _ => .error (bitFault a b)

def complement (a : Val) : Except String Val :=
  match a.number?.bind Number.toInt64? with
  | some m => .ok (.int (~~~m))
  | none => .error (bitFault a a)

def concat (a b : Val) : Except String Val :=
  match a.toBytes?, b.toBytes? with
  | some s, some t => .ok (.str (s ++ t))
  | some _, none => .error (b.misuse "concatenate")
  | none, _ => .error (a.misuse "concatenate")

/-- Whether a value is less than another, or with `orEqual` no greater. -/
def less (orEqual : Bool) (a b : Val) : Except String Bool :=
  let holds (o : Ordering) : Bool := o == .lt || (orEqual && o == .eq)
  match a, b with
  | str s, str t => .ok (holds (compare s t))
  | a, b =>
    match a.number?, b.number? with
    | some x, some y => .ok ((x.compare? y).any holds)
    | _, _ => .error (compareFault a b)

/-- A comparison. A greater-than is a less-than with its operands exchanged. -/
def compare (op : CompareOp) (a b : Val) : Except String Val :=
  match op with
  | .eq => .ok (.bool (a.rawEqual b))
  | .ne => .ok (.bool (!a.rawEqual b))
  | .lt => (less false a b).map .bool
  | .le => (less true a b).map .bool
  | .gt => (less false b a).map .bool
  | .ge => (less true b a).map .bool

def binary (op : BinaryOp) (a b : Val) : Except String Val :=
  match op with
  | .arith op => arith op a b
  | .bit op => bits op a b
  | .compare op => compare op a b
  | .concat => concat a b

end Val

end ScriptStore.Script
