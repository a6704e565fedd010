import ScriptStore.Number.Decimal
import ScriptStore.Number.Reading

/-!
# Numbers in JSON

* `floatText` — how a double is written: the fewest digits that read back, with a point when the
  exponent of the first digit is between -5 and 15 and with an exponent otherwise. JSON has no
  infinities, and these are `null`.
* `Number.ofText?` — what a written number stands for: an integer of 64 bits if it has neither
  fraction nor exponent and fits, and a double otherwise, which a `FloatReader` reads.
* `scaledFloat?` — the reader of doubles that documents use.

A double is read by scaling: the leading digits that fit in 64 bits are rounded to a double, and
that is multiplied or divided once by a power of ten. A number too large for a double has no
value.
-/

namespace ScriptStore.Json

/-! ## Writing -/

/-- The text of a positive decimal: positional within the window of exponents, and always with
something that tells it from an integer. -/
def decimalText (d : Decimal) : List Char :=
  let e := d.scientificExponent
  if -5 ≤ e ∧ e ≤ 15 then
    if 0 ≤ d.exponent then d.positional ++ ['.', '0'] else d.positional
  else d.scientific ++ 'e' :: (if 0 ≤ e then '+' else '-') :: Nat.toDigits 10 e.natAbs

/-- The text of a double, if JSON has one. -/
def floatText? (f : Float) : Option (List Char) :=
  match Binary64.shape f with
  | .finite negative m =>
    let magnitude :=
      if m.significand = 0 then ['0', '.', '0'] else decimalText (Decimal.shortest .even m)
    some (if negative then '-' :: magnitude else magnitude)
  | _ => none

/-! ## Reading -/

/-- The double that a numeral is read as, if it is read as one. -/
abbrev FloatReader := Numeral → Option Float

inductive Number where
  | integer (n : Int64)
  | float (f : Float)

def significandLimit : Nat := 2 ^ 64 - 1

/-- Digits on their way to a double: the value of those kept, the power of ten that goes with
it, and whether some digit no longer fitted. -/
structure Scaled where
  value : Nat
  exponent : Int
  full : Bool
  deriving DecidableEq, Repr

/-- A digit before the point. From the first that does not fit on, digits only count. -/
def Scaled.pushWhole (s : Scaled) (c : Char) : Scaled :=
  if s.full || significandLimit < s.value * 10 + digitValue c then
    { s with exponent := s.exponent + 1, full := true }
  else { s with value := s.value * 10 + digitValue c }

/-- A digit after the point. From the first that does not fit on, digits are dropped. -/
def Scaled.pushFraction (s : Scaled) (c : Char) : Scaled :=
  if s.full || significandLimit < s.value * 10 + digitValue c then { s with full := true }
  else { s with value := s.value * 10 + digitValue c, exponent := s.exponent - 1 }

/-- The leading digits of a numeral, without its written exponent. -/
def Scaled.ofNumeral (n : Numeral) : Scaled :=
  let whole := n.whole.foldl pushWhole ⟨0, 0, false⟩
  n.fractionDigits.foldl pushFraction { whole with full := false }

def powerOfTen (k : Nat) : Float := Binary64.nearest false ⟨10 ^ k, 1⟩

/-- A double divided by a power of ten, in steps that are doubles themselves. -/
def divideByPower (f : Float) (k : Nat) : Float :=
  if k ≤ 308 then f / powerOfTen k
  else if f == 0.0 then f
  else divideByPower (f / powerOfTen 308) (k - 308)
termination_by k

/-- A double multiplied by a power of ten, if the product is finite. -/
def multiplyByPower (f : Float) (k : Nat) : Option Float :=
  if k ≤ 308 then
    let g := f * powerOfTen k
    if g == Binary64.infinity false then none else some g
  else if f == 0.0 then some f
  else none

/-- The greatest value of a written exponent that is told from a larger one. -/
def exponentLimit : Int := 2 ^ 31 - 1

/-- The magnitude of a numeral as a double, if it has one. -/
def scaledMagnitude? (n : Numeral) : Option Float :=
  let s := Scaled.ofNumeral n
  let written := n.exponentValue
  if exponentLimit < written ∨ written < -exponentLimit then
    if s.value ≠ 0 ∧ 0 < written then none else some 0.0
  else
    let f := Binary64.nearest false ⟨s.value, 1⟩
    let e := s.exponent + written
    if 0 ≤ e then multiplyByPower f e.toNat else some (divideByPower f (-e).toNat)

def scaledFloat? : FloatReader := fun n =>
  (scaledMagnitude? n).map fun f => if n.negative then -f else f

/-- The digits before the point have no leading zero. -/
def plainWhole : List Char → Bool
  | [] => false
  | ['0'] => true
  | c :: _ => c ≠ '0'

/-- A numeral that the grammar of documents admits. -/
def wellFormed (n : Numeral) : Bool :=
  n.sign ≠ some '+' && plainWhole n.whole && n.fraction ≠ some [] && n.exponentComplete

/-- The integer that a numeral is written as. A zero with a sign is none. -/
def integer? (n : Numeral) : Option Int64 :=
  if n.fraction.isNone && n.exponent.isNone then
    let magnitude := digitsValue n.whole
    if n.negative then
      if magnitude = 0 then none else int64OfInt? (-(magnitude : Int))
    else int64OfInt? magnitude
  else none

/-- What a written number stands for. -/
def Number.ofText? (read : FloatReader) (text : List Char) : Option Number :=
  let (n, rest) := Numeral.scan text
  if rest.isEmpty && wellFormed n then
    match integer? n with
    | some i => some (.integer i)
    | none => (read n).map .float
  else none

end ScriptStore.Json
