import ScriptStore.Number.Reading
import ScriptStore.Text.Utf8

/-!
# Numbers in scripts

A script has integers of 64 bits and doubles. `Number.ofText?` reads either, from source text and
from strings that are used as numbers:

* decimal digits that fit in 64 bits are an integer, and so are hexadecimal digits after `0x`,
  which wrap around;
* anything else that has a point or an exponent, or does not fit, is a double;
* blanks around the number and a sign before it are allowed, names of infinities are not.
-/

namespace ScriptStore.Script

/-- A string of a script. -/
abbrev Bytes := List UInt8

def bytes (s : String) : Bytes := Utf8.encode s

/-- The bytes as characters of one byte each. -/
def latinChars (b : Bytes) : List Char := b.map fun x => Char.ofNat x.toNat

inductive Number where
  | int (n : Int64)
  | float (f : Float)

/-- The blanks of source text, line breaks included. -/
def isSpace (c : Char) : Bool := c = ' ' || (9 ≤ c.toNat && c.toNat ≤ 13)

/-- A text without the blanks around it. -/
def trimSpace (cs : List Char) : List Char :=
  ((cs.dropWhile isSpace).reverse.dropWhile isSpace).reverse

def isHexDigit (c : Char) : Bool :=
  c.isDigit || ('a' ≤ c && c ≤ 'f') || ('A' ≤ c && c ≤ 'F')

/-- The value of a digit in a base up to 36: letters of either case follow the decimal digits. -/
def digitOf (c : Char) : Nat :=
  if c.isDigit then c.toNat - '0'.toNat else c.toLower.toNat - 'a'.toNat + 10

/-- The value of a row of digits in a base. -/
def valueInBase (base : Nat) (cs : List Char) : Nat :=
  cs.foldl (fun n c => n * base + digitOf c) 0

/-- What follows `0x`. -/
def hexBody? : List Char → Option (List Char)
  | '0' :: x :: rest => if x = 'x' ∨ x = 'X' then some rest else none
  | _ => none

namespace Number

/-- An integer without blanks: hexadecimal, or decimal within 64 bits. -/
def integer? (text : List Char) : Option Int64 :=
  let (sign, rest) := takeSign text
  let negative := sign = some '-'
  match hexBody? rest with
  | some digits =>
    if !digits.isEmpty && digits.all isHexDigit then
      let n := Int64.ofNat (valueInBase 16 digits)
      some (if negative then -n else n)
    else none
  | none =>
    if !rest.isEmpty && rest.all Char.isDigit then
      let n : Int := digitsValue rest
      int64OfInt? (if negative then -n else n)
    else none

/-- The double nearest to `m · 2 ^ e`. -/
def scaledFloat (negative : Bool) (m : Nat) (e : Int) : Float :=
  if m = 0 then Binary64.ofMagnitudeBits negative 0
  else
    let top := e + m.log2
    if 1100 < top then Binary64.infinity negative
    else if top < -1200 then Binary64.ofMagnitudeBits negative 0
    else Binary64.nearest negative (.ofScaled m 2 e)

/-- The binary exponent after hexadecimal digits; 0 if there is none. -/
def binaryExponent? : List Char → Option Int
  | [] => some 0
  | c :: rest =>
    if c = 'p' ∨ c = 'P' then
      let (sign, digits) := takeSign rest
      if !digits.isEmpty && digits.all Char.isDigit then
        let n : Int := digitsValue digits
        some (if sign = some '-' then -n else n)
      else none
    else none

/-- A hexadecimal double after its `0x`. -/
def hexFloat? (negative : Bool) (body : List Char) : Option Float :=
  let whole := body.takeWhile isHexDigit
  let rest := body.dropWhile isHexDigit
  let (fraction, rest) : List Char × List Char :=
    match rest with
    | '.' :: rest => (rest.takeWhile isHexDigit, rest.dropWhile isHexDigit)
    | rest => ([], rest)
  if (whole ++ fraction).isEmpty then none
  else
    (binaryExponent? rest).map fun e =>
      scaledFloat negative (valueInBase 16 (whole ++ fraction)) (e - 4 * fraction.length)

def float? (text : List Char) : Option Float :=
  let (sign, rest) := takeSign text
  match hexBody? rest with
  | some body => hexFloat? (sign = some '-') body
  | none =>
    let (n, rest) := Numeral.scan text
    if rest.isEmpty && !(n.whole ++ n.fractionDigits).isEmpty && n.exponentComplete
    then some n.toFloat else none

def ofText? (text : Bytes) : Option Number :=
  let cs := trimSpace (latinChars text)
  match integer? cs with
  | some n => some (.int n)
  | none => (float? cs).map .float

end Number

end ScriptStore.Script
