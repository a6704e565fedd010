import ScriptStore.Script.Lexer
import ScriptStore.Script.Program

/-!
# Reading programs: tokens and names

A reading holds the tokens that are left and the names in sight. This module has its steps that do
not depend on the grammar.

* `Parse` — a step of a reading. It fails with the first fault of the source.
* `advance`, `expect`, `accept`, `name`, `closing` — taking tokens.
* `nested` — what can be inside itself.
* `declare`, `resolve` — local variables.
* `inBlock`, `inFunction`, `defineLabel`, `addJump` — blocks, labels and jumps. A jump that has not
  found its label waits; it may go out of blocks but not into the scope of a variable.
-/

namespace ScriptStore.Script

structure LocalName where
  name : Bytes
  constant : Bool

structure LabelName where
  name : Bytes
  line : Nat
  depth : Nat

/-- A jump that waits for its label: `none` waits for the end of a loop. `depth` counts the
variables that are in sight wherever it may still go. -/
structure WaitingJump where
  label : Option Bytes
  line : Nat
  depth : Nat

/-- A reading: the tokens left, the line of the last one taken, the variables in sight, innermost
first, how many of them are older than the innermost block, and what concerns the function being
read: whether it takes more arguments than it names, how many loops are open, its labels in sight,
its waiting jumps in order, and how many of these are older than the innermost block. `nesting`
counts the statements and expressions that are being read. -/
structure Reading where
  tokens : List Token
  line : Nat
  locals : List LocalName
  outerLocals : Nat
  variadic : Bool
  loops : Nat
  labels : List LabelName
  jumps : List WaitingJump
  firstJump : Nat
  nesting : Nat

/-- A step of a reading. -/
abbrev Parse := StateT Reading (Except SourceFault)

namespace Parse

def current : Parse Token := do
  return (← get).tokens.headD ⟨.finish, [], (← get).line⟩

def failHere {α : Type} (text : Bytes) : Parse α := do
  throw (.atLine (← current).line text)

def failNear {α : Type} (text : String) : Parse α := do
  let token ← current
  throw (.near token.line (bytes text) token.near)

/-- Reports a lexical fault. -/
def check (token : Token) : Parse Unit :=
  match token.kind with
  | .fault message => throw ⟨message⟩
  | _ => pure ()

/-- Takes the current token. A fault right behind it is reported. -/
def advance : Parse Unit := do
  let token ← current
  modify fun r => { r with tokens := r.tokens.tail, line := token.line }
  check (← current)

/-- Whether the current token is this reserved word or operator. -/
def atFixed (s : String) : Parse Bool := do
  match (← current).kind with
  | .fixed s' => return s = s'
  | _ => return false

/-- Whether the token behind the current one is this reserved word or operator. -/
def nextIsFixed (s : String) : Parse Bool := do
  match (← get).tokens.tail.head? with
  | some token =>
    check token
    match token.kind with
    | .fixed s' => return s = s'
    | _ => return false
  | none => return false

/-- Takes the current token if it is this reserved word or operator. -/
def accept (s : String) : Parse Bool := do
  if ← atFixed s then
    advance
    return true
  else return false

def expect (s : String) : Parse Unit := do
  unless ← accept s do failNear ("'" ++ s ++ "' expected")

/-- Takes what must close something that was opened on a line. -/
def closing (what opened : String) (line : Nat) : Parse Unit := do
  unless ← accept what do
    if line = (← current).line then failNear ("'" ++ what ++ "' expected")
    else
      failNear ("'" ++ what ++ "' expected (to close '" ++ opened ++ "' at line " ++
        toString line ++ ")")

def name : Parse Bytes := do
  match (← current).kind with
  | .name s =>
    advance
    return s
  | _ => failNear "<name> expected"

/-- How many statements and expressions inside each other are too many. -/
def nestingLimit : Nat := 200

/-- Reads a statement or an expression inside those that are being read. -/
def nested {α : Type} (body : Parse α) : Parse α := do
  let n := (← get).nesting + 1
  if nestingLimit ≤ n then throw ⟨bytes "C stack overflow"⟩
  modify fun r => { r with nesting := n }
  let result ← body
  modify fun r => { r with nesting := n - 1 }
  return result

/-! ## Variables -/

def depth : Parse Nat := do return (← get).locals.length

/-- How many variables in sight are older than the innermost block. -/
def outerDepth : Parse Nat := do return (← get).outerLocals

def declare (names : List LocalName) : Parse Unit :=
  modify fun r => { r with locals := names.reverse ++ r.locals }

/-- Declares variables that can be assigned. -/
def declareNames (names : List Bytes) : Parse Unit :=
  declare (names.map fun name => ⟨name, false⟩)

/-- What a name means: the variable declared last under it, or else a global one. -/
def resolve (name : Bytes) : Parse Expr := do
  let r ← get
  match r.locals.findIdx? fun l => l.name = name with
  | some i => return .slot i
  | none => return .global name r.line

/-- Fails if an expression is a constant variable. -/
def checkAssignable : Expr → Parse Unit
  | .slot i => do
    match (← get).locals[i]? with
    | some ⟨name, true⟩ =>
      failHere (bytes "attempt to assign to const variable " ++ quoted name)
    | _ => pure ()
  | _ => pure ()

/-- An expression as what an assignment assigns to. -/
def target : Expr → Parse Target
  | .slot i => return .slot i
  | .global name _ => return .global name
  | .index object key _ => return .element object key
  | _ => failNear "syntax error"

/-! ## Labels and jumps -/

/-- A jump that waits for its label. -/
def addJump (label : Option Bytes) (line : Nat) : Parse Unit := do
  let depth ← depth
  modify fun r => { r with jumps := r.jumps ++ [⟨label, line, depth⟩] }

/-- A jump to a label. One that is in sight needs no waiting. -/
def jumpTo (label : Bytes) (line : Nat) : Parse Unit := do
  unless (← get).labels.any fun l => l.name = label do addJump (some label) line

/-- Fails if a waiting jump would come into the scope of a variable at a label. -/
def checkJump (label : Bytes) (depth : Nat) (jump : WaitingJump) : Parse Unit := do
  if jump.label = some label ∧ jump.depth < depth then
    let entered := ((← get).locals.reverse[jump.depth]?.map LocalName.name).getD []
    failHere (bytes "<goto " ++ label ++ bytes "> at line " ++ natBytes jump.line ++
      bytes " jumps into the scope of local " ++ quoted entered)

/-- A label: the jumps of this block that wait for it have found it. -/
def defineLabel (label : Bytes) (line : Nat) (depth : Nat) : Parse Unit := do
  match (← get).labels.find? fun l => l.name = label with
  | some l =>
    failHere (bytes "label " ++ quoted label ++ bytes " already defined on line " ++
      natBytes l.line)
  | none =>
    let r ← get
    (r.jumps.drop r.firstJump).forM (checkJump label depth)
    let waiting := (r.jumps.drop r.firstJump).filter fun j => j.label ≠ some label
    set { r with
      labels := ⟨label, line, depth⟩ :: r.labels
      jumps := r.jumps.take r.firstJump ++ waiting }

/-- Reads a block. Its variables and labels go out of sight behind it. -/
def inBlock {α : Type} (body : Parse α) : Parse α := do
  let outer ← get
  set { outer with
    outerLocals := outer.locals.length
    firstJump := outer.jumps.length }
  let result ← body
  modify fun r => { r with
    locals := outer.locals
    outerLocals := outer.outerLocals
    labels := outer.labels
    firstJump := outer.firstJump
    jumps := r.jumps.map fun j => { j with depth := min j.depth outer.locals.length } }
  return result

/-- Reads the body of a loop. -/
def inLoop {α : Type} (body : Parse α) : Parse α := do
  modify fun r => { r with loops := r.loops + 1 }
  let result ← body
  modify fun r => { r with loops := r.loops - 1 }
  return result

/-- Fails if a jump has not found its label. -/
def checkJumps : Parse Unit := do
  match (← get).jumps with
  | [] => pure ()
  | ⟨none, line, _⟩ :: _ => failHere (bytes "break outside a loop at line " ++ natBytes line)
  | ⟨some label, line, _⟩ :: _ =>
    failHere (bytes "no visible label " ++ quoted label ++ bytes " for <goto> at line " ++
      natBytes line)

/-- Reads a function. Its labels and jumps are its own. -/
def inFunction {α : Type} (variadic : Bool) (body : Parse α) : Parse α := do
  let outer ← get
  set { outer with
    outerLocals := outer.locals.length
    variadic, loops := 0, labels := [], jumps := [], firstJump := 0 }
  let result ← body
  checkJumps
  modify fun r => { r with
    locals := outer.locals
    outerLocals := outer.outerLocals
    variadic := outer.variadic
    loops := outer.loops
    labels := outer.labels
    jumps := outer.jumps
    firstJump := outer.firstJump }
  return result

end Parse

end ScriptStore.Script
