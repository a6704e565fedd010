import ScriptStore.Number.Rounded
import ScriptStore.Script.Program

/-!
# Arithmetic on the numbers of a script

Two integers are added, subtracted and multiplied modulo `2 ^ 64`; as soon as one operand is a
double, so is the result. Quotients and powers are always doubles. Division to an integer rounds
down, and the remainder has the sign of the divisor.

* `Number.arith` — the arithmetic operators.
* `Number.compare?` — the exact order of numbers of either kind.
* `Number.toInt64?` — the integer that a number is.
* `Number.text` — a number as a string.
-/

namespace ScriptStore.Script

open Binary64 (Magnitude Shape)

/-- The greatest integer that is no greater than a double, as a double. -/
def floatFloor (f : Float) : Float :=
  match Binary64.shape f with
  | .finite negative m =>
    let x := m.ratio
    if x.num % x.den = 0 then f
    else if negative then Binary64.ofInt (-(x.num / x.den : Nat) - 1)
    else Binary64.ofInt (x.num / x.den : Nat)
  | _ => f

/-- The exact remainder of a division that rounds toward zero; it has the sign of the dividend. -/
def floatTruncMod (a b : Float) : Float :=
  match Binary64.shape a, Binary64.shape b with
  | .finite negative m, .finite _ n =>
    if n.significand = 0 then 0.0 / 0.0
    else
      let e := min m.exponent n.exponent
      let dividend := m.significand * 2 ^ (m.exponent - e).toNat
      let divisor := n.significand * 2 ^ (n.exponent - e).toNat
      Binary64.nearest negative (.ofScaled (dividend % divisor) 2 e)
  | .finite _ _, .infinite _ => a
  | _, _ => 0.0 / 0.0

/-- The remainder of a division that rounds down. -/
def floatMod (a b : Float) : Float :=
  let m := floatTruncMod a b
  if (if 0.0 < m then b < 0.0 else m < 0.0 ∧ 0.0 < b) then m + b else m

/-- A power; squares are products. -/
def floatPow (a b : Float) : Float := if b == 2.0 then a * a else Float.pow a b

namespace Number

def toFloat : Number → Float
  | int n => Binary64.ofInt n.toInt
  | float f => f

/-- The integer that a number is, if it is one of 64 bits. -/
def toInt64? : Number → Option Int64
  | int n => some n
  | float f => (Binary64.toInt? f).bind int64OfInt?

def floatArith (op : ArithOp) (a b : Float) : Float :=
  match op with
  | .add => a + b
  | .sub => a - b
  | .mul => a * b
  | .div => a / b
  | .mod => floatMod a b
  | .pow => floatPow a b
  | .idiv => floatFloor (a / b)

/-- An arithmetic operator. An integer divided by the integer 0 has neither quotient nor
remainder, and the answer is the fault. -/
def arith (op : ArithOp) (a b : Number) : Except String Number :=
  match op, a, b with
  | .add, int m, int n => .ok (int (m + n))
  | .sub, int m, int n => .ok (int (m - n))
  | .mul, int m, int n => .ok (int (m * n))
  | .idiv, int m, int n =>
    if n = 0 then .error "attempt to divide by zero"
    else .ok (int (Int64.ofInt (Int.fdiv m.toInt n.toInt)))
  | .mod, int m, int n =>
    if n = 0 then .error "attempt to perform 'n%0'"
    else .ok (int (Int64.ofInt (Int.fmod m.toInt n.toInt)))
  | op, a, b => .ok (float (floatArith op a.toFloat b.toFloat))

def negate : Number → Number
  | int n => int (-n)
  | float f => float (-f)

/-- Bits moved to the left by a count, or to the right by a negative one; zeros come in. -/
def shiftLeft (n places : Int64) : Int64 :=
  let x := n.toUInt64
  let count := places.toInt
  if count ≤ -64 ∨ 64 ≤ count then 0
  else if 0 ≤ count then (x <<< UInt64.ofNat count.toNat).toInt64
  else (x >>> UInt64.ofNat (-count).toNat).toInt64

/-- An operator on bits. -/
def bits (op : BitOp) (m n : Int64) : Int64 :=
  match op with
  | .and => m &&& n
  | .or => m ||| n
  | .xor => m ^^^ n
  | .shiftLeft => shiftLeft m n
  | .shiftRight => shiftLeft m (-n)

/-! ## Order -/

/-- An integer against a double, exactly. The double that is no number has no place. -/
def compareIntFloat? (n : Int) (f : Float) : Option Ordering :=
  match Binary64.shape f with
  | .nan => none
  | .infinite negative => some (if negative then .gt else .lt)
  | .finite negative m =>
    let value : Int := if negative then -m.significand else m.significand
    if 0 ≤ m.exponent then some (compare n (value * 2 ^ m.exponent.toNat))
    else some (compare (n * 2 ^ (-m.exponent).toNat) value)

/-- The order of two doubles, if both are numbers. -/
def compareFloats? (a b : Float) : Option Ordering :=
  if a < b then some .lt else if a == b then some .eq else if b < a then some .gt else none

/-- The order of two numbers, if both are numbers. -/
def compare? : Number → Number → Option Ordering
  | int m, int n => some (compare m n)
  | int m, float f => compareIntFloat? m.toInt f
  | float f, int n => (compareIntFloat? n.toInt f).map Ordering.swap
  | float f, float g => compareFloats? f g

/-! ## Text -/

/-- A double with fourteen significant digits, and with `.0` where nothing else tells it from an
integer. -/
def floatText (f : Float) : List Char :=
  match Binary64.shape f with
  | .nan => ['-', 'n', 'a', 'n']
  | .infinite negative => if negative then ['-', 'i', 'n', 'f'] else ['i', 'n', 'f']
  | .finite negative m =>
    let text := generalText false 14 m
    let text := if text.all Char.isDigit then text ++ ['.', '0'] else text
    if negative then '-' :: text else text

def text : Number → Bytes
  | int n => bytes (int64Text n)
  | float f => bytes (String.ofList (floatText f))

end Number

end ScriptStore.Script
