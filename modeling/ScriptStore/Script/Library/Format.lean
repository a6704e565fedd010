import ScriptStore.Script.Library.Argument

/-!
# Formats

A format is text with conversions in it. A conversion is a percent sign, flags, a width, a precision
and a letter, and takes an argument; two percent signs stand for one.

* `Conversion` — the parts of a conversion; `Conversion.inOrder` is what its letter allows.
* `convert` — what a conversion makes of its argument.
* `format` — a format filled with arguments.
-/

namespace ScriptStore.Script.Library

open Routine

/-- A conversion: what stands between the percent sign and the letter, the parts of that, and the
letter. -/
structure Conversion where
  spec : List Char
  flags : List Char
  width : Nat
  precision : Option Nat
  letter : Char

/-- A text without up to `n` decimal digits at its front. -/
def dropDigits : Nat → List Char → List Char
  | n + 1, c :: cs => if c.isDigit then dropDigits n cs else c :: cs
  | _, cs => cs

def charBytes (text : List Char) : Bytes := text.map fun c => UInt8.ofNat c.toNat

def upperChars (text : List Char) : List Char := text.map Char.toUpper

namespace Conversion

def text (k : Conversion) : String :=
  String.ofList ('%' :: k.spec ++ if k.letter.toNat = 0 then [] else [k.letter])

def has (k : Conversion) (flag : Char) : Bool := k.flags.contains flag

/-- Whether a conversion has only these flags, a width of at most two digits, and at most such a
precision, if any. -/
def inOrder (k : Conversion) (flags : List Char) (precision : Bool) : Bool :=
  let rest := k.spec.dropWhile flags.contains
  match if rest.head? = some '0' then rest else dropDigits 2 rest with
  | [] => true
  | '.' :: rest => precision && (dropDigits 2 rest).isEmpty
  | _ => false

/-! ## Layout -/

/-- A text with blanks on one side up to the width. -/
def pad (k : Conversion) (text : List Char) : List Char :=
  let blanks := List.replicate (k.width - text.length) ' '
  if k.has '-' then text ++ blanks else blanks ++ text

def sign (k : Conversion) (negative : Bool) : List Char :=
  if negative then ['-'] else if k.has '+' then ['+'] else if k.has ' ' then [' '] else []

/-- A number with its sign, or zeros behind it, up to the width. -/
def padNumber (k : Conversion) (zeros : Bool) (lead digits : List Char) : List Char :=
  if zeros && k.has '0' && !k.has '-' then
    lead ++ List.replicate (k.width - lead.length - digits.length) '0' ++ digits
  else k.pad (lead ++ digits)

/-- Digits with zeros before them up to the precision. A zero with precision 0 has none. -/
def digits (k : Conversion) (base n : Nat) : List Char :=
  let ds := if n = 0 && k.precision = some 0 then [] else Nat.toDigits base n
  List.replicate (k.precision.getD 0 - ds.length) '0' ++ ds

def decimal (k : Conversion) (n : Int) : List Char :=
  k.padNumber k.precision.isNone (k.sign (n < 0)) (k.digits 10 n.natAbs)

/-- An integer without sign in a base. -/
def unsigned (k : Conversion) (base : Nat) (lead : List Char) (n : Int) : List Char :=
  let value := (Int64.ofInt n).toUInt64.toNat
  k.padNumber k.precision.isNone (if k.has '#' && value ≠ 0 then lead else []) (k.digits base value)

/-- A float in a layout behind some characters. -/
def float (k : Conversion) (lead : List Char) (layout : Binary64.Magnitude → List Char)
    (f : Float) : List Char :=
  match Binary64.shape f with
  | .finite negative m => k.padNumber true (k.sign negative ++ lead) (layout m)
  | .infinite negative => k.pad (k.sign negative ++ ['i', 'n', 'f'])
  | .nan => k.pad ['-', 'n', 'a', 'n']

def places (k : Conversion) : Nat := k.precision.getD 6

/-- The layout of floats for a letter in lower case. -/
def layout (k : Conversion) (letter : Char) : Binary64.Magnitude → List Char :=
  match letter with
  | 'a' => hexText (k.has '#') k.precision
  | 'e' => scientificText (k.has '#') k.places
  | 'f' => fixedText (k.has '#') k.places
  | _ => generalText (k.has '#') k.places

/-- A string cut off at the precision. -/
def cut (k : Conversion) (s : Bytes) : Bytes :=
  let s := match k.precision with
    | some n => s.take n
    | none => s
  let blanks := List.replicate (k.width - s.length) (32 : UInt8)
  if k.has '-' then s ++ blanks else blanks ++ s

end Conversion

/-! ## Values as source text -/

/-- A control character, before a digit or not. -/
def controlText (b : UInt8) (digitFollows : Bool) : Bytes :=
  let digits := Nat.toDigits 10 b.toNat
  let zeros := if digitFollows then List.replicate (3 - digits.length) '0' else []
  charBytes ('\\' :: zeros ++ digits)

/-- The inside of a string between quotes as source text reads it back. -/
def quotedBody : Bytes → Bytes
  | [] => []
  | b :: rest =>
    let shown :=
      if b = 34 || b = 92 || b = 10 then [92, b]
      else if b < 32 || b = 127 then controlText b (rest.head?.any fun n => 48 ≤ n && n ≤ 57)
      else [b]
    shown ++ quotedBody rest

/-- A double as source text reads it back. -/
def floatLiteral (f : Float) : List Char :=
  match Binary64.shape f with
  | .finite negative m => (if negative then ['-'] else []) ++ ['0', 'x'] ++ hexText false none m
  | .infinite negative => (if negative then ['-'] else []) ++ ['1', 'e', '9', '9', '9', '9']
  | .nan => ['(', '0', '/', '0', ')']

/-- An argument as source text reads it back. -/
def literal (c : Call) (i : Nat) : Routine Bytes :=
  match c.arg i with
  | .str s => return [34] ++ quotedBody s ++ [34]
  | .int n =>
    return if n = Int64.ofInt (-2 ^ 63) then bytes "0x8000000000000000" else bytes (int64Text n)
  | .float f => return charBytes (floatLiteral f)
  | .bool b => tostring (.bool b)
  | .nil => tostring .nil
  | _ => c.fail i "value has no literal form"

/-! ## Conversions -/

/-- What a conversion makes of an argument. -/
def convert (c : Call) (k : Conversion) (i : Nat) : Routine Bytes := do
  let check (flags : String) (precision : Bool) : Routine Unit :=
    unless k.inOrder flags.toList precision do
      failMessage ("invalid conversion specification: '" ++ k.text ++ "'")
  match k.letter with
  | 'c' =>
    check "-" false
    return charBytes (k.pad [Char.ofNat ((← c.integer i) % 256).toNat])
  | 'd' | 'i' =>
    let n ← c.integer i
    check "-+ 0" true
    return charBytes (k.decimal n)
  | 'u' =>
    let n ← c.integer i
    check "-0" true
    return charBytes (k.unsigned 10 [] n)
  | 'o' =>
    let n ← c.integer i
    check "-#0" true
    return charBytes (k.unsigned 8 ['0'] n)
  | 'x' =>
    let n ← c.integer i
    check "-#0" true
    return charBytes (k.unsigned 16 ['0', 'x'] n)
  | 'X' =>
    let n ← c.integer i
    check "-#0" true
    return charBytes (upperChars (k.unsigned 16 ['0', 'x'] n))
  | 'a' | 'A' =>
    check "-+ #0" true
    let shown := k.float ['0', 'x'] (k.layout 'a') (← c.number i).toFloat
    return charBytes (if k.letter.isUpper then upperChars shown else shown)
  | 'e' | 'E' | 'f' | 'g' | 'G' =>
    let n ← c.number i
    check "-+ #0" true
    let shown := k.float [] (k.layout k.letter.toLower) n.toFloat
    return charBytes (if k.letter.isUpper then upperChars shown else shown)
  | 's' =>
    let s ← tostring (c.arg i)
    if k.spec.isEmpty then return s
    if s.contains 0 then c.fail i "string contains zeros"
    check "-" true
    return k.cut s
  | 'q' =>
    unless k.spec.isEmpty do failMessage "specifier '%q' cannot have modifiers"
    literal c i
  | _ => failMessage ("invalid conversion '" ++ k.text ++ "' to 'format'")

/-- The characters that can stand between a percent sign and its letter. -/
def specChars : List Char := "-+ #0123456789.".toList

/-- The characters of flags. -/
def flagChars : List Char := "-+ #0".toList

/-- The conversion behind a percent sign, and what follows. A format that ends too early gives a
letter that is none. -/
def takeConversion (text : Bytes) : Conversion × Bytes :=
  let isSpec (b : UInt8) : Bool := specChars.contains (Char.ofNat b.toNat)
  let spec := latinChars (text.takeWhile isSpec)
  let rest := text.dropWhile isSpec
  let sizes := spec.dropWhile flagChars.contains
  let precision : Option Nat :=
    match sizes.dropWhile Char.isDigit with
    | '.' :: places => some (digitsValue (places.takeWhile Char.isDigit))
    | _ => none
  let letter := Char.ofNat ((rest.headD 0).toNat)
  (⟨spec, spec.takeWhile flagChars.contains, digitsValue (sizes.takeWhile Char.isDigit), precision,
    letter⟩, rest.drop 1)

/-- The longest text between a percent sign and its letter. -/
def specLimit : Nat := 20

/-- A format with the arguments from the `i`-th on. -/
def formatFrom (c : Call) : Nat → Bytes → Nat → Routine Bytes
  | 0, _, _ => return []
  | fuel + 1, text, i =>
    match text with
    | [] => return []
    | 37 :: 37 :: rest => do return 37 :: (← formatFrom c fuel rest i)
    | 37 :: rest => do
      if c.args.length < i then c.fail i "no value"
      let (k, rest) := takeConversion rest
      if specLimit < k.spec.length then failMessage "invalid format string to 'format'"
      let shown ← convert c k i
      return shown ++ (← formatFrom c fuel rest (i + 1))
    | b :: rest => do return b :: (← formatFrom c fuel rest i)

def format (c : Call) : Routine (List Val) := do
  let text ← c.string 1
  return [.str (← formatFrom c text.length.succ text 2)]

end ScriptStore.Script.Library
