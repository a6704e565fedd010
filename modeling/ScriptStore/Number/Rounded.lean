import ScriptStore.Number.Decimal

/-!
# Numbers with a given precision

Four layouts of a non-negative number, rounded from its exact value with ties to even.

* `fixedText` — a number of places after the point.
* `scientificText` — one digit before the point, a number of places after it, and an exponent of at
  least two digits.
* `generalText` — a number of significant digits, in whichever of the two layouts suits the size of
  the number; zeros at the end of the fraction are dropped unless they are to be kept.
* `hexText` — hexadecimal digits of the significand, exact unless places are given, and the exponent
  of two.
-/

namespace ScriptStore

open Binary64 (Magnitude)

/-- Digits with a point before the last `places` of them. With `point` there is one even if no
place follows it. -/
def withPoint (point : Bool) (digits : List Char) (places : Nat) : List Char :=
  Decimal.pointed digits places ++ if places = 0 && point then ['.'] else []

def fixedText (point : Bool) (places : Nat) (m : Magnitude) : List Char :=
  withPoint point (Decimal.fixed places m.ratio).chars places

/-- An exponent with its sign and at least two digits. -/
def exponentText (e : Int) : List Char :=
  let digits := Nat.toDigits 10 e.natAbs
  (if e < 0 then '-' else '+') :: (if digits.length < 2 then '0' :: digits else digits)

/-- A number rounded to `n` significant digits, all of them kept; zero has no first digit and is
written as if its exponent were 0. -/
def significantDigits (n : Nat) (m : Magnitude) : List Char × Int :=
  if m.significand = 0 then (List.replicate n '0', 0)
  else
    let d := Decimal.significant n m.ratio
    (d.chars, d.scientificExponent)

/-- A number with `places` digits after its first. -/
def scientificText (point : Bool) (places : Nat) (m : Magnitude) : List Char :=
  let (digits, e) := significantDigits (places + 1) m
  withPoint point digits places ++ 'e' :: exponentText e

/-- A fraction without the zeros at its end, and without its point if nothing is left behind it. -/
def dropTrailingZeros (text : List Char) : List Char :=
  if text.contains '.' then
    let kept := (text.reverse.dropWhile (· = '0')).reverse
    if kept.getLast? = some '.' then kept.dropLast else kept
  else text

/-- A number with `precision` significant digits, at least one. -/
def generalText (keepZeros : Bool) (precision : Nat) (m : Magnitude) : List Char :=
  let precision := max precision 1
  let (digits, e) := significantDigits precision m
  let clean (text : List Char) := if keepZeros then text else dropTrailingZeros text
  if -4 ≤ e ∧ e < precision then
    clean (fixedText keepZeros (precision - 1 - e).toNat m)
  else clean (withPoint keepZeros digits (precision - 1)) ++ 'e' :: exponentText e

/-- A number in hexadecimal digits, with the bit above the fraction of a double before the point. -/
def hexText (point : Bool) (places : Option Nat) (m : Magnitude) : List Char :=
  let rounded : Nat :=
    match places with
    | some n => (Binary64.Ratio.ofScaled m.significand 2 (4 * n - 52)).roundHalfEven
    | none => m.significand
  let width := places.getD 13
  let whole := rounded / 16 ^ width
  let digits := Nat.toDigits 16 (rounded % 16 ^ width)
  let fraction := List.replicate (width - digits.length) '0' ++ (if width = 0 then [] else digits)
  let fraction :=
    if places.isSome then fraction else (fraction.reverse.dropWhile (· = '0')).reverse
  let e : Int := if m.significand = 0 then 0 else m.exponent + 52
  Nat.toDigits 16 whole ++ (if point || !fraction.isEmpty then ['.'] else []) ++ fraction ++
    'p' :: (if e < 0 then '-' else '+') :: Nat.toDigits 10 e.natAbs

example : hexText false none ⟨0x18000000000000, -52⟩ = ['1', '.', '8', 'p', '+', '0'] := by
  decide +kernel
example : generalText false 14 ⟨0x1999999999999A, -56⟩ = ['0', '.', '1'] := by decide +kernel
example : generalText false 3 ⟨1, 40⟩ = ['1', '.', '1', 'e', '+', '1', '2'] := by decide +kernel

end ScriptStore
