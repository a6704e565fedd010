import ScriptStore.Script.Routine

/-!
# Arguments of library functions

Library functions say which argument is wrong, by its place from 1 on, and what was expected. An
argument that is missing is no `nil`, though most functions treat it as one.
-/

namespace ScriptStore.Script.Library

open Routine

/-- A call of a library function: its name and its arguments. -/
structure Call where
  name : String
  args : List Val

namespace Call

/-- An argument; a missing one is `nil`. -/
def arg (c : Call) (i : Nat) : Val := (c.args[i - 1]?).getD .nil

def typeName (c : Call) (i : Nat) : String :=
  match c.args[i - 1]? with
  | some v => v.typeName
  | none => "no value"

def fail {α : Type} (c : Call) (i : Nat) (text : String) : Routine α := failArgument i c.name text

/-- Fails over the type of an argument. -/
def failType {α : Type} (c : Call) (i : Nat) (expected : String) : Routine α :=
  c.fail i (expected ++ " expected, got " ++ c.typeName i)

/-- An argument that must be there. -/
def any (c : Call) (i : Nat) : Routine Val :=
  match c.args[i - 1]? with
  | some v => pure v
  | none => c.fail i "value expected"

/-- An argument that must be a table. -/
def table (c : Call) (i : Nat) : Routine Nat :=
  match c.arg i with
  | .table id => pure id
  | _ => c.failType i "table"

/-- An argument that must be a string or a number. -/
def string (c : Call) (i : Nat) : Routine Bytes :=
  match (c.arg i).toBytes? with
  | some s => pure s
  | none => c.failType i "string"

/-- An argument that must be a number or read as one. -/
def number (c : Call) (i : Nat) : Routine Number :=
  match (c.arg i).toNumber? with
  | some n => pure n
  | none => c.failType i "number"

/-- An argument that must be an integer or have the value of one. -/
def integer (c : Call) (i : Nat) : Routine Int := do
  match (← c.number i).toInt64? with
  | some n => return n.toInt
  | none => c.fail i "number has no integer representation"

/-- An integer argument with a value in its absence. -/
def integerOr (c : Call) (i : Nat) (default : Int) : Routine Int :=
  if (c.arg i).isNil then pure default else c.integer i

end Call

def intVal (n : Int) : Val := .int (Int64.ofInt n)

end ScriptStore.Script.Library
