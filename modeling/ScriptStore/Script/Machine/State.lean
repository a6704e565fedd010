import ScriptStore.Script.Library
import ScriptStore.Script.Token

/-!
# The state of a running script

A script runs in small steps. Its state is what it does next, what is to be done with the outcome,
innermost first, and the heap.

* `Env`, `Position` — where code runs: its variables, and its place in a block.
* `Use`, `Frame` — what waits for values, for the end of a statement, or for the end of a function.
* `Control` — what comes next. At `asks` the script waits for the store, at `finished` it is over.
* `Machine` — the state.

`ticks` counts statements and expressions, where the hook of `execute` counts the instructions that
they are compiled to.
-/

namespace ScriptStore.Script

/-- The variables of running code, innermost first, and the arguments that its function does not
name. -/
structure Env where
  scope : List Nat
  varargs : List Val

/-- A place in a block: the whole block, what is left of it, and the variables. -/
structure Position where
  block : Block
  rest : Block
  env : Env

def Position.start (block : Block) (env : Env) : Position := ⟨block, block, env⟩

/-- The same place with other variables in sight. -/
def Position.withScope (p : Position) (scope : List Nat) : Position :=
  { p with env := { p.env with scope } }

/-- A numeric loop between two rounds: the value of this round and how it goes on. An integer loop
knows how many rounds are left. -/
inductive Count where
  | ints (current : Int64) (left : Nat) (step : Int64)
  | floats (current limit step : Float)

/-- What is done with the values of a list of expressions. -/
inductive Use where
  | call (f : Val) (line : Nat)
  | answer
  | declare (count : Nat) (next : Position)
  | assign (targets : List Target) (next : Position) (line : Nat)
  | numericLoop (body : Block) (env : Env) (line : Nat)
  | genericLoop (names : Nat) (body : Block) (env : Env) (line : Nat)

/-- What a routine stands for: an operation on a line of the script, or a library function that was
called on a line or from another one. -/
inductive Origin where
  | operation (line : Nat)
  | library (line : Option Nat)

/-- A generic loop: what it calls for each round, and its body. -/
structure Iteration where
  step : Val
  subject : Val
  names : Nat
  body : Block
  env : Env
  line : Nat

/-- How deep a run is: how many functions are running, and how many calls have been made that only
end before what made them goes on — by the library, by metatables, and the first one of all. -/
structure Level where
  functions : Nat
  inner : Nat
  deriving DecidableEq, Repr

/-- What waits for the outcome of what runs now. -/
inductive Frame where
  -- expressions
  | unary (op : UnaryOp) (line : Nat)
  | binaryRight (op : BinaryOp) (right : Expr) (env : Env) (line : Nat)
  | binary (op : BinaryOp) (left : Val) (line : Nat)
  | both (right : Expr) (env : Env)
  | either (right : Expr) (env : Env)
  | single
  | indexKey (key : Expr) (env : Env) (line : Nat)
  | index (object : Val) (line : Nat)
  | callee (args : List Expr) (env : Env) (line : Nat)
  | methodObject (name : Bytes) (args : List Expr) (env : Env) (nameLine line : Nat)
  | method (object : Val) (args : List Expr) (env : Env) (line : Nat)
  | list (held : List Val) (rest : List Expr) (env : Env) (use : Use)
  | item (table : Nat) (items : List Val) (rest : List Field) (env : Env)
  | lastItem (table : Nat) (items : List Val)
  | entryKey (table : Nat) (items : List Val) (value : Expr) (line : Nat) (rest : List Field)
      (env : Env)
  | entry (table : Nat) (items : List Val) (key : Val) (line : Nat) (rest : List Field)
      (env : Env)
  -- statements
  | resume (next : Position)
  | choice (yes no : Block) (env : Env)
  | whileTest (condition : Expr) (body : Block) (env : Env)
  | whileBody (condition : Expr) (body : Block) (env : Env)
  | repeatBody (body : Block) (env : Env)
  | leaveIf (next : Position)
  | numericBody (count : Count) (body : Block) (env : Env)
  | genericStep (loop : Iteration)
  | genericBody (loop : Iteration) (control : Val)
  -- functions
  | answer
  | activation (line : Option Nat) (level : Level)
  | protect (line : Option Nat)
  | routine (origin : Origin) (resume : List Val → Heap → Outcome (List Val))
  | begin (f : Val)
  | report

/-- One of the two ways to the store: a failing command raises its message, or answers it. -/
inductive StoreAccess where
  | strict
  | lenient
  deriving DecidableEq, Repr

/-- How a script ended: with results, or with the message of a failure that nothing caught. -/
abbrev Ending := Except Bytes (List Val)

/-- What comes next. -/
inductive Control where
  | run (p : Position)
  | eval (e : Expr) (env : Env)
  | give (vs : List Val)
  | call (f : Val) (args : List Val) (line : Option Nat)
  | raise (v : Val)
  | asks (access : StoreAccess) (args : List Val)
  | finished (ending : Ending)

/-- A running script. `ticks` counts what it has done since it was last reset. -/
structure Machine where
  control : Control
  frames : List Frame
  heap : Heap
  ticks : Nat

namespace Frame

def isActivation : Frame → Bool
  | activation .. => true
  | _ => false

def isLoop : Frame → Bool
  | whileBody .. | repeatBody .. | numericBody .. | genericBody .. => true
  | _ => false

/-- Whether a frame catches failures. -/
def isProtection : Frame → Bool
  | protect _ => true
  | _ => false

/-- Whether a frame puts a failure that nothing caught into words. -/
def isReport : Frame → Bool
  | report => true
  | _ => false

/-- The line on which the function was called that ends at a frame. -/
def callLine? : Frame → Option (Option Nat)
  | activation line _ | protect line | routine (.library line) _ => some line
  | _ => none

end Frame

/-- How many functions may run. -/
def functionLimit : Nat := 190000

/-- How many inner calls are too many. -/
def innerLimit : Nat := 200

/-- How deep a run is that waits with these frames. -/
def level : List Frame → Level
  | [] => ⟨0, 1⟩
  | .activation _ level :: _ => level
  | .protect _ :: frames | .routine .. :: frames | .genericStep _ :: frames =>
    let l := level frames
    { l with inner := l.inner + 1 }
  | _ :: frames => level frames

/-- The lines on which the running functions were called, innermost first. -/
def callLines (frames : List Frame) : List (Option Nat) := frames.filterMap Frame.callLine?

/-- A message that begins with a line, if there is one. -/
def placed (line : Option Nat) (text : Bytes) : Val :=
  match line with
  | some line => .str (position line ++ text)
  | none => .str text

def Origin.line : Origin → Option Nat
  | operation line => some line
  | library line => line

/-- The line on which an origin calls functions: library functions have none. -/
def Origin.callsOn : Origin → Option Nat
  | operation line => some line
  | library _ => none

/-- The value that a fault raises. -/
def Fault.toVal (origin : Origin) (frames : List Frame) : Fault → Val
  | .value v => v
  | .operation text => placed origin.callsOn (bytes text)
  | .message level text =>
    match level with
    | 0 => .str text
    | level + 1 => placed ((origin.line :: callLines frames)[level]?.getD none) text

end ScriptStore.Script
