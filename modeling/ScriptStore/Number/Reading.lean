import ScriptStore.Number.Binary64

/-!
# Reading numbers

A number in text is a sign, digits, a fraction and an exponent. `Numeral.scan` takes these parts
off the front of a text without judging them; each format then says which parts it admits.

* `Numeral` — the parts, and `Numeral.toFloat`, the double nearest to them.
* `readInt64?` — an optional sign and decimal digits, within 64 bits.
* `readFloat?` — a decimal number with optional sign, point and exponent, or the name of an
  infinity or of no number.
-/

namespace ScriptStore

/-- A written exponent: its sign character, if any, and its digits. -/
structure WrittenExponent where
  sign : Option Char
  digits : List Char
  deriving DecidableEq, Repr

/-- The parts of a decimal numeral as written. A point without digits is an empty fraction. -/
structure Numeral where
  sign : Option Char
  whole : List Char
  fraction : Option (List Char)
  exponent : Option WrittenExponent
  deriving DecidableEq, Repr

def digitValue (c : Char) : Nat := c.toNat - '0'.toNat

def digitsValue (ds : List Char) : Nat := ds.foldl (fun n c => n * 10 + digitValue c) 0

/-- A sign at the front of a text. -/
def takeSign : List Char → Option Char × List Char
  | '+' :: rest => (some '+', rest)
  | '-' :: rest => (some '-', rest)
  | rest => (none, rest)

/-- The exponent at the front of a text: a letter, then a sign, then digits. -/
def takeExponent : List Char → Option WrittenExponent × List Char
  | c :: rest =>
    if c = 'e' ∨ c = 'E' then
      let (sign, rest) := takeSign rest
      (some ⟨sign, rest.takeWhile Char.isDigit⟩, rest.dropWhile Char.isDigit)
    else (none, c :: rest)
  | [] => (none, [])

/-- The fraction at the front of a text: a point, then digits. -/
def takeFraction : List Char → Option (List Char) × List Char
  | '.' :: rest => (some (rest.takeWhile Char.isDigit), rest.dropWhile Char.isDigit)
  | rest => (none, rest)

namespace Numeral

/-- The numeral at the front of a text, and what follows it. -/
def scan (text : List Char) : Numeral × List Char :=
  let (sign, rest) := takeSign text
  let whole := rest.takeWhile Char.isDigit
  let (fraction, rest) := takeFraction (rest.dropWhile Char.isDigit)
  let (exponent, rest) := takeExponent rest
  (⟨sign, whole, fraction, exponent⟩, rest)

def negative (n : Numeral) : Bool := n.sign = some '-'

def fractionDigits (n : Numeral) : List Char := n.fraction.getD []

/-- The value of the written exponent; 0 if there is none. -/
def exponentValue (n : Numeral) : Int :=
  match n.exponent with
  | none => 0
  | some e => if e.sign = some '-' then -(digitsValue e.digits : Int) else digitsValue e.digits

/-- An exponent, if written, has digits. -/
def exponentComplete (n : Numeral) : Bool :=
  match n.exponent with
  | none => true
  | some e => !e.digits.isEmpty

/-- The double nearest to the number that is written. -/
def toFloat (n : Numeral) : Float :=
  Binary64.nearestDecimal n.negative (digitsValue (n.whole ++ n.fractionDigits))
    (n.exponentValue - n.fractionDigits.length)

end Numeral

/-- The integer of 64 bits with this value, if there is one. -/
def int64OfInt? (i : Int) : Option Int64 :=
  if -2 ^ 63 ≤ i ∧ i < 2 ^ 63 then some (Int64.ofInt i) else none

/-- An integer of 64 bits: an optional sign, then one or more decimal digits. -/
def readInt64? (text : String) : Option Int64 :=
  let (sign, digits) := takeSign text.toList
  if digits.isEmpty || !digits.all Char.isDigit then none
  else
    let n : Int := digitsValue digits
    int64OfInt? (if sign = some '-' then -n else n)

/-- A double: an optional sign, then digits with an optional point among them and an optional
exponent, or a name in letters of either case. -/
def readFloat? (text : String) : Option Float :=
  let (sign, rest) := takeSign text.toList
  let negative := sign = some '-'
  let word := String.ofList (rest.map Char.toLower)
  if word = "inf" ∨ word = "infinity" then some (Binary64.infinity negative)
  else if word = "nan" then some (0.0 / 0.0)
  else
    let (n, rest) := Numeral.scan text.toList
    if rest.isEmpty && !(n.whole ++ n.fractionDigits).isEmpty && n.exponentComplete
    then some n.toFloat else none

def int64Text (i : Int64) : String := toString i.toInt

end ScriptStore
