/-!
# Binary64 numbers

A double is seen as a sign and an exact magnitude `significand · 2 ^ exponent`, and a positive
ratio is rounded back to a double in exact natural-number arithmetic.

* `shape` — the parts of a double.
* `Ratio` — a non-negative quotient; `Magnitude.ratio` is the exact one of a double.
* `roundHalfEven` — a quotient rounded to the nearest natural number, ties to the even one.
* `nearestBits`, `nearest` — the double nearest to a ratio, ties to the even significand,
  infinite from half a unit above the largest finite double on.
-/

-- a power means the same in the modules that import Mathlib as in those that do not
attribute [instance (1100), default_instance (20000)] instPowNat

namespace ScriptStore.Binary64

/-- The number `significand · 2 ^ exponent`. -/
structure Magnitude where
  significand : Nat
  exponent : Int
  deriving DecidableEq, Repr

/-- What a double stands for. -/
inductive Shape where
  | finite (negative : Bool) (magnitude : Magnitude)
  | infinite (negative : Bool)
  | nan
  deriving DecidableEq, Repr

/-- The parts that 64 bits encode: a sign, eleven bits of biased exponent and 52 of fraction.
Biased exponent 0 has no hidden bit, and 2047 is no number. -/
def shapeOfBits (bits : Nat) : Shape :=
  let negative := 2 ^ 63 ≤ bits
  let biased : Nat := bits / 2 ^ 52 % 2 ^ 11
  let fraction : Nat := bits % 2 ^ 52
  if biased = 2047 then
    if fraction = 0 then .infinite negative else .nan
  else if biased = 0 then .finite negative ⟨fraction, -1074⟩
  else .finite negative ⟨2 ^ 52 + fraction, (biased : Int) - 1075⟩

def shape (f : Float) : Shape := shapeOfBits f.toBits.toNat

/-- The non-negative number `num / den`; `den` is positive. -/
structure Ratio where
  num : Nat
  den : Nat
  deriving DecidableEq, Repr

/-- The ratio `m · b ^ e`. -/
def Ratio.ofScaled (m b : Nat) (e : Int) : Ratio :=
  if 0 ≤ e then ⟨m * b ^ e.toNat, 1⟩ else ⟨m, b ^ (-e).toNat⟩

/-- A ratio divided by `b ^ e`. -/
def Ratio.unscale (x : Ratio) (b : Nat) (e : Int) : Ratio :=
  if 0 ≤ e then ⟨x.num, x.den * b ^ e.toNat⟩ else ⟨x.num * b ^ (-e).toNat, x.den⟩

/-- The exact value of a magnitude. -/
def Magnitude.ratio (m : Magnitude) : Ratio := .ofScaled m.significand 2 m.exponent

/-- The nearest natural number, a tie going to the even one. -/
def Ratio.roundHalfEven (x : Ratio) : Nat :=
  let q := x.num / x.den
  let r := x.num % x.den
  if x.den < 2 * r ∨ (2 * r = x.den ∧ q % 2 = 1) then q + 1 else q

/-- The exponent `e` with `2 ^ e ≤ x < 2 ^ (e + 1)`, for a positive ratio. -/
def Ratio.log2 (x : Ratio) : Int :=
  let e : Int := (x.num.log2 : Int) - x.den.log2
  let y := x.unscale 2 e
  if y.num < y.den then e - 1 else e

def infinityBits : Nat := 0x7FF * 2 ^ 52

/-- The bits of the double nearest to a ratio. The unit of its last place is `2 ^ q`; a
significand that rounds up to `2 ^ 53` carries into the exponent field by itself. -/
def nearestBits (x : Ratio) : Nat :=
  if x.num = 0 then 0
  else
    let q := max (x.log2 - 52) (-1074)
    let bits := (q + 1074).toNat * 2 ^ 52 + (x.unscale 2 q).roundHalfEven
    min bits infinityBits

/-- The double of a sign and the bits of a magnitude. -/
def ofMagnitudeBits (negative : Bool) (bits : Nat) : Float :=
  Float.ofBits (UInt64.ofNat (bits + if negative then 2 ^ 63 else 0))

/-- The double nearest to a signed ratio. -/
def nearest (negative : Bool) (x : Ratio) : Float :=
  ofMagnitudeBits negative (nearestBits x)

/-- How many decimal digits a natural number has; 0 has one. -/
def decimalLength (n : Nat) : Nat := (Nat.toDigits 10 n).length

/-- The double nearest to `digits · 10 ^ exponent`. Exponents beyond every double are settled
by the number of digits alone. -/
def nearestDecimal (negative : Bool) (digits : Nat) (exponent : Int) : Float :=
  if digits = 0 then ofMagnitudeBits negative 0
  else
    let top := exponent + decimalLength digits
    if 310 < top then ofMagnitudeBits negative infinityBits
    else if top < -330 then ofMagnitudeBits negative 0
    else nearest negative (.ofScaled digits 10 exponent)

def ofInt (i : Int) : Float := nearest (i < 0) ⟨i.natAbs, 1⟩

/-- The integer that a double is, if it is one. -/
def toInt? (f : Float) : Option Int :=
  match shape f with
  | .finite negative m =>
    let x := m.ratio
    if x.num % x.den = 0 then
      let n : Int := x.num / x.den
      some (if negative then -n else n)
    else none
  | _ => none

def infinity (negative : Bool) : Float := ofMagnitudeBits negative infinityBits

example : (nearestDecimal false 1 (-1)).toBits = 0x3FB999999999999A := by decide +kernel
example : (nearestDecimal true 5 (-324)).toBits = 0x8000000000000001 := by decide +kernel
example : (nearestDecimal false 18 307).toBits = 0x7FF0000000000000 := by decide +kernel

end ScriptStore.Binary64
