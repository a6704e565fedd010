import ScriptStore.Number.Binary64

/-!
# Decimal numbers

`Decimal` is a natural number times a power of ten. This module finds the decimal that a format
writes for a positive double, and lays decimals out as text.

* `shortest` — the fewest digits that read back as the same double, and of those the nearest to
  it; two equally near are told apart by a `Tie`.
* `significant` — a ratio rounded to a number of significant digits, ties to even.
* `fixed` — a ratio rounded to a number of places after the point, ties to even.
* `Decimal.positional` — digits with a point, and never an exponent.
* `Decimal.scientific` — one digit before the point, and the exponent that goes with it.
-/

namespace ScriptStore

open Binary64 (Ratio Magnitude nearestBits decimalLength)

/-- The number `digits · 10 ^ exponent`. -/
structure Decimal where
  digits : Nat
  exponent : Int
  deriving DecidableEq, Repr

/-- Which of two equally near candidates is taken. -/
inductive Tie where
  | up
  | even
  deriving DecidableEq, Repr

namespace Decimal

def chars (d : Decimal) : List Char := Nat.toDigits 10 d.digits

/-- The same number without trailing zeros among its digits, in at most `fuel` steps. -/
def stripFuel : Nat → Decimal → Decimal
  | 0, d => d
  | fuel + 1, d =>
    if d.digits % 10 = 0 ∧ d.digits ≠ 0 then stripFuel fuel ⟨d.digits / 10, d.exponent + 1⟩ else d

def strip (d : Decimal) : Decimal := stripFuel d.digits.log2 d

def ratio (d : Decimal) : Ratio := .ofScaled d.digits 10 d.exponent

/-- The place `k` of the first digit: `10 ^ (k - 1) ≤ x < 10 ^ k`, for a positive ratio. -/
def leadingPlace (x : Ratio) : Int :=
  let k : Int := (decimalLength x.num : Int) - decimalLength x.den
  let y := x.unscale 10 k
  if y.num < y.den then k else k + 1

/-- The decimal with `n` digits that reads back as the double with these bits, if there is one:
of the two neighbours of `x` on the grid of `n` digits, the nearer one that does. -/
def withDigits (tie : Tie) (x : Ratio) (bits n : Nat) : Option Decimal :=
  let exponent := leadingPlace x - n
  let y := x.unscale 10 exponent
  let below := y.num / y.den
  let rest := 2 * (y.num % y.den)
  let readsBack (m : Nat) : Bool := nearestBits (.ofScaled m 10 exponent) = bits
  let upper := rest > y.den ∨ (rest = y.den ∧ (tie = .up ∨ below % 2 = 1))
  let (first, second) := if upper then (below + 1, below) else (below, below + 1)
  if readsBack first then some ⟨first, exponent⟩
  else if readsBack second then some ⟨second, exponent⟩
  else none

/-- The fewest digits that read back as a positive double. Seventeen always suffice; the exact
value stands behind them. -/
def shortest (tie : Tie) (m : Magnitude) : Decimal :=
  let x := m.ratio
  let bits := nearestBits x
  match (List.range 17).findSome? fun n => withDigits tie x bits (n + 1) with
  | some d => d.strip
  | none => ⟨x.num * 5 ^ (-m.exponent).toNat, min m.exponent 0⟩

/-- A positive ratio rounded to `n` significant digits; a carry keeps the digit count. -/
def significant (n : Nat) (x : Ratio) : Decimal :=
  let exponent := leadingPlace x - n
  let m := (x.unscale 10 exponent).roundHalfEven
  if m = 10 ^ n then ⟨10 ^ (n - 1), exponent + 1⟩ else ⟨m, exponent⟩

/-- A ratio rounded to `places` digits after the point. -/
def fixed (places : Nat) (x : Ratio) : Decimal :=
  ⟨(x.unscale 10 (-places)).roundHalfEven, -places⟩

/-- Digits with a point before the last `places` of them, and a zero where none is left before
it. -/
def pointed (digits : List Char) (places : Nat) : List Char :=
  let digits := List.replicate (places + 1 - digits.length) '0' ++ digits
  let whole := digits.length - places
  if places = 0 then digits else digits.take whole ++ '.' :: digits.drop whole

/-- A decimal in positional notation. Zeros fill the places above its last digit, and there is a
point only if it has places after it. -/
def positional (d : Decimal) : List Char :=
  if 0 ≤ d.exponent then d.chars ++ List.replicate d.exponent.toNat '0'
  else pointed d.chars (-d.exponent).toNat

/-- The exponent of the first digit when one digit stands before the point. -/
def scientificExponent (d : Decimal) : Int := d.exponent + (d.chars.length : Int) - 1

/-- The digits with a point after the first, if there are more. -/
def scientific (d : Decimal) : List Char := pointed d.chars (d.chars.length - 1)

end Decimal

example : Decimal.shortest .up ⟨1, -1074⟩ = ⟨5, -324⟩ := by decide +kernel
example : (Decimal.shortest .up ⟨0x1999999999999A, -56⟩).positional = ['0', '.', '1'] := by
  decide +kernel
example : (Decimal.significant 3 ⟨9996, 10⟩).positional = ['1', '0', '0', '0'] := by decide +kernel

end ScriptStore
