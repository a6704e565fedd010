import ScriptStore.Script.Library.Argument

/-!
# The functions on strings

`rep`, `sub` and `upper`. Places in strings count from 1, or from the end if negative.
-/

namespace ScriptStore.Script.Library

open Routine

def stringLimit : Nat := 2 ^ 31

/-- Copies of a string with a separator between. -/
def repeatString (c : Call) : Routine (List Val) := do
  let s ← c.string 1
  let n ← c.integer 2
  let separator ← if (c.arg 3).isNil then pure [] else c.string 3
  if n ≤ 0 then return [.str []]
  else if stringLimit < (s.length + separator.length) * n.toNat then
    failMessage "resulting string too large"
  else return [.str ((List.replicate n.toNat s).intersperse separator).flatten]

/-- A place in a string of a length, counted from the end if negative. -/
def placeFromEnd (n : Int) (length : Nat) : Int :=
  if 0 ≤ n then n else max (length + n + 1) 0

/-- The bytes between two places. -/
def subString (c : Call) : Routine (List Val) := do
  let s ← c.string 1
  let first := max (placeFromEnd (← c.integer 2) s.length) 1
  let last := min (placeFromEnd (← c.integerOr 3 (-1)) s.length) s.length
  return [.str ((s.drop (first - 1).toNat).take (last - first + 1).toNat)]

def upperCase (c : Call) : Routine (List Val) := do
  let s ← c.string 1
  return [.str (s.map fun b => if 97 ≤ b && b ≤ 122 then b - 32 else b)]

end ScriptStore.Script.Library
