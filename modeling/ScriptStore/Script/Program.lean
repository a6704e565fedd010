import ScriptStore.Script.Numeral

/-!
# Programs

The tree of a script. Names of local variables are resolved: `Expr.slot i` is the variable that was
declared `i` declarations before the innermost one in sight, counted through the functions around.
The tree keeps a line wherever a run can fail.

* `Expr`, `Field`, `Function` — expressions, the fields of table constructors, function bodies.
* `Stat`, `Target` — statements, and what an assignment assigns to.
* `Block` — a row of statements; `Block.afterLabel?` finds where a jump goes on.
-/

namespace ScriptStore.Script

inductive UnaryOp where
  | negate
  | invert
  | length
  | complement
  deriving DecidableEq, Repr

/-- The arithmetic operators, on numbers of either kind. -/
inductive ArithOp where
  | add | sub | mul | div | mod | pow | idiv
  deriving DecidableEq, Repr

/-- The operators on the bits of integers. -/
inductive BitOp where
  | and | or | xor | shiftLeft | shiftRight
  deriving DecidableEq, Repr

inductive CompareOp where
  | eq | ne | lt | le | gt | ge
  deriving DecidableEq, Repr

/-- The operators that need the values of both operands. -/
inductive BinaryOp where
  | arith (op : ArithOp)
  | bit (op : BitOp)
  | compare (op : CompareOp)
  | concat
  deriving DecidableEq, Repr

mutual

inductive Expr where
  | nil
  | bool (b : Bool)
  | number (n : Number)
  | string (s : Bytes)
  | varargs
  | slot (index : Nat)
  | global (name : Bytes) (line : Nat)
  | index (object key : Expr) (line : Nat)
  | call (callee : Expr) (args : List Expr) (line : Nat)
  | method (object : Expr) (name : Bytes) (args : List Expr) (nameLine line : Nat)
  | function (f : Function)
  | unary (op : UnaryOp) (operand : Expr) (line : Nat)
  | binary (op : BinaryOp) (left right : Expr) (line : Nat)
  | both (left right : Expr)
  | either (left right : Expr)
  | table (fields : List Field)
  | single (e : Expr)

/-- A field of a table constructor: an item at the next index, or a value under a key. -/
inductive Field where
  | item (value : Expr)
  | entry (key value : Expr) (line : Nat)

/-- A function body: how many parameters it names, whether it takes more, and its block. -/
inductive Function where
  | mk (params : Nat) (variadic : Bool) (body : List Stat)

/-- Statements. The block of a `repeatLoop` ends with the `leaveIf` that may see its variables; a
label knows how many variables are in sight behind it. -/
inductive Stat where
  | declare (count : Nat) (values : List Expr)
  | assign (targets : List Target) (values : List Expr) (line : Nat)
  | perform (call : Expr)
  | block (body : List Stat)
  | whileLoop (condition : Expr) (body : List Stat)
  | repeatLoop (body : List Stat)
  | leaveIf (condition : Expr)
  | choice (condition : Expr) (yes no : List Stat)
  | numericLoop (first limit : Expr) (step : Option Expr) (body : List Stat) (line : Nat)
  | genericLoop (names : Nat) (values : List Expr) (body : List Stat) (line : Nat)
  | localFunction (f : Function)
  | answer (values : List Expr)
  | leave
  | jump (label : Bytes)
  | label (name : Bytes) (depth : Nat)

inductive Target where
  | slot (index : Nat)
  | global (name : Bytes)
  | element (object key : Expr)

end

instance : Inhabited Expr := ⟨.nil⟩

abbrev Block := List Stat

/-- The statements behind a label of the block, and how many variables are in sight there. -/
def Block.afterLabel? (name : Bytes) : Block → Option (Block × Nat)
  | [] => none
  | .label name' depth :: rest =>
    if name' = name then some (rest, depth) else Block.afterLabel? name rest
  | _ :: rest => Block.afterLabel? name rest

structure Chunk where
  body : Block

/-- A script as a function. It names no parameters and takes any number. -/
def Chunk.function (c : Chunk) : Function := .mk 0 true c.body

end ScriptStore.Script
