import ScriptStore.Error
import ScriptStore.Number.Decimal
import ScriptStore.Number.Reading

/-!
# Values

`Value` is what crosses the border of the store: command arguments, replies, and what scripts
answer. Values are trees, so they hold no cycles.

* `Fields` — the members of a mapping, sorted by name; `Fields.insert` keeps them so and lets a
  later value replace an earlier one of the same name.
* `Value.equal` — equality, which compares floats as numbers: no number differs from itself and
  both zeros are equal.
* `Value.argument` — the text of a scalar as a command argument.

These are `Value`, `to_arg` and `format_float`.
-/

namespace ScriptStore

/-- Named values, sorted by name. Names are ordered by code point, which is the order of their
bytes. -/
abbrev Fields (α : Type) := List (String × α)

namespace Fields

variable {α : Type}

/-- Fields with `name` bound to `value`, in place of what it was bound to before. -/
def insert (name : String) (value : α) : Fields α → Fields α
  | [] => [(name, value)]
  | (name', value') :: rest =>
    if name < name' then (name, value) :: (name', value') :: rest
    else if name = name' then (name, value) :: rest
    else (name', value') :: insert name value rest

/-- The fields that pairs give one after another. -/
def ofPairs (pairs : List (String × α)) : Fields α :=
  pairs.foldl (fun fields pair => insert pair.1 pair.2 fields) []

def get? (name : String) (fields : Fields α) : Option α := List.lookup name fields

end Fields

/-- A value that enters or leaves the store. -/
inductive Value where
  | nil
  | boolean (b : Bool)
  | integer (n : Int64)
  | float (f : Float)
  | text (s : String)
  | sequence (items : List Value)
  | mapping (fields : List (String × Value))
  deriving Inhabited

namespace Value

def isNil : Value → Bool
  | nil => true
  | _ => false

def asText? : Value → Option String
  | text s => some s
  | _ => none

def asInteger? : Value → Option Int64
  | integer n => some n
  | _ => none

mutual

def equal : Value → Value → Bool
  | nil, nil => true
  | boolean a, boolean b => a == b
  | integer a, integer b => a == b
  | float a, float b => a == b
  | text a, text b => a == b
  | sequence as, sequence bs => equalItems as bs
  | mapping as, mapping bs => equalFields as bs
  | _, _ => false

def equalItems : List Value → List Value → Bool
  | [], [] => true
  | a :: as, b :: bs => equal a b && equalItems as bs
  | _, _ => false

def equalFields : List (String × Value) → List (String × Value) → Bool
  | [], [] => true
  | (m, a) :: as, (n, b) :: bs => m == n && equal a b && equalFields as bs
  | _, _ => false

end

end Value

/-- The text of a float as an argument. Integers below `10 ^ 17` are exact and lose their sign
at zero; other numbers have the fewest digits that read back, in positional notation. -/
def floatArgument (f : Float) : String :=
  match Binary64.toInt? f, Binary64.shape f with
  | some i, shape => if i.natAbs < 10 ^ 17 then toString i else general shape
  | none, shape => general shape
where
  /-- A float that is not written as an integer. -/
  general : Binary64.Shape → String
    | .finite negative m =>
      (if negative then "-" else "") ++ String.ofList (Decimal.shortest .up m).positional
    | .infinite negative => if negative then "-inf" else "inf"
    | .nan => "NaN"

/-- A value as a command argument. Only scalars are one, and a boolean counts as 1 or 0. -/
def Value.argument : Value → Except Error String
  | .text s => .ok s
  | .integer n => .ok (int64Text n)
  | .float f => .ok (floatArgument f)
  | .boolean b => .ok (if b then "1" else "0")
  | .nil => .error (.invalidArgument .nilArgument)
  | .sequence _ | .mapping _ => .error (.invalidArgument .containerArgument)

/-- The values as command arguments; the first that is none decides the error. -/
def Value.arguments (values : List Value) : Except Error (List String) :=
  values.mapM Value.argument

end ScriptStore
