import ScriptStore.Script.Library.Argument

/-!
# The basic functions

`type`, `tostring`, `tonumber`, `error`, `assert`, `select`, `setmetatable`, and the functions
behind generic loops: `pairs` with `next`, and `ipairs` with its step.
-/

namespace ScriptStore.Script.Library

open Routine

def typeOf (c : Call) : Routine (List Val) := do
  let v ← c.any 1
  return [.ofString v.typeName]

def textOf (c : Call) : Routine (List Val) := do
  let v ← c.any 1
  return [.str (← tostring v)]

/-- An integer written in a base: blanks around it and a minus sign are allowed, and it wraps
around. -/
def integerInBase? (base : Nat) (text : Bytes) : Option Int64 :=
  let cs := trimSpace (latinChars text)
  let (negative, digits) : Bool × List Char :=
    match cs with
    | '-' :: rest => (true, rest)
    | cs => (false, cs)
  if !digits.isEmpty && digits.all fun d => d.isAlphanum && digitOf d < base then
    let n := Int64.ofNat (valueInBase base digits)
    some (if negative then -n else n)
  else none

/-- A value as a number, or the number that a string is in a base. -/
def numberOf (c : Call) : Routine (List Val) := do
  if (c.arg 2).isNil then
    let v ← c.any 1
    return [(v.toNumber?.map Number.toVal).getD .nil]
  else
    let base ← c.integer 2
    match c.arg 1 with
    | .str s =>
      if 2 ≤ base ∧ base ≤ 36 then
        return [((integerInBase? base.toNat s).map Val.int).getD .nil]
      else c.fail 2 "base out of range"
    | _ => c.failType 1 "string"

/-- Fails with a value. A string is told where the failure arose, `level` calls out. -/
def raise (v : Val) (level : Int) : Routine (List Val) :=
  match v with
  | .str s => if 0 < level then fail (.message level.toNat s) else fail (.value v)
  | v => fail (.value v)

def failWith (c : Call) : Routine (List Val) := do
  let level ← c.integerOr 2 1
  raise (c.arg 1) level

/-- Gives its arguments back if the first holds, and fails with the second otherwise. -/
def assertTrue (c : Call) : Routine (List Val) := do
  let v ← c.any 1
  if v.truthy then return c.args
  else
    match c.args[1]? with
    | some message => raise message 1
    | none => raise (.ofString "assertion failed!") 1

/-- The arguments from a place on, counted from the end if negative, or how many there are. -/
def selectFrom (c : Call) : Routine (List Val) := do
  let rest := c.args.drop 1
  match c.arg 1 with
  | .str [35] => return [intVal rest.length]
  | _ =>
    let n ← c.integer 1
    if n < 0 then
      if rest.length < -n then c.fail 1 "index out of range"
      else return rest.drop (rest.length + n).toNat
    else if n = 0 then c.fail 1 "index out of range"
    else return rest.drop (n - 1).toNat

def setMetatable (c : Call) : Routine (List Val) := do
  let id ← c.table 1
  match (c.args[1]? : Option Val) with
  | some (.table m) =>
    change fun h => ((), h.modifyTable id fun t => { t with metatable := some m })
    return [.table id]
  | some .nil =>
    change fun h => ((), h.modifyTable id fun t => { t with metatable := none })
    return [.table id]
  | _ => c.failType 2 "nil or table"

/-- The entry behind a key, or `nil` behind the last. -/
def nextEntry (c : Call) : Routine (List Val) := do
  let id ← c.table 1
  match ← read fun h => (h.table id).next? (Key.ofVal? (c.arg 2)) with
  | some (k, v) => return [k.toVal, v]
  | none => return [.nil]

/-- What a loop over the entries of a table needs. -/
def pairsOf (c : Call) : Routine (List Val) := do
  let v ← c.any 1
  match ← read fun h => h.metaField v metaPairs with
  | .nil => return [.builtin .next, v, .nil]
  | f =>
    let results ← call f [v]
    return (results ++ [Val.nil, Val.nil, Val.nil]).take 3

/-- What a loop over the items of a table needs. -/
def itemsOf (c : Call) : Routine (List Val) := do
  let v ← c.any 1
  return [.builtin .step, v, .int 0]

/-- The item behind an index, or `nil` behind the last. -/
def nextItem (c : Call) : Routine (List Val) := do
  let i ← c.integer 2
  let v ← index (c.arg 1) (intVal (i + 1))
  return if v.isNil then [.nil] else [intVal (i + 1), v]

/-- Whether a number is an integer or a float; `nil` for what is no number. -/
def numberType (c : Call) : Routine (List Val) := do
  let v ← c.any 1
  return match v with
    | .int _ => [.ofString "integer"]
    | .float _ => [.ofString "float"]
    | _ => [.nil]

end ScriptStore.Script.Library
