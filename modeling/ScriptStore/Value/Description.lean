import ScriptStore.Value.Basic

/-!
# Values in messages

The message about a reply that a caller has not expected shows the reply: the name of its kind, and
what it holds.

* `quotedText` — a text in quotes, with escapes for what does not show.
* `floatDescription` — a float, with an exponent from `10 ^ 16` on and below `10 ^ -4`.
* `Value.description` — a value.

This is how `unexpected` shows a reply. Of the characters that are escaped because they do not show,
only those of ASCII are.
-/

namespace ScriptStore

/-- A character in quotes. Characters beyond ASCII stand for themselves. -/
def quotedChar (c : Char) : String :=
  match c with
  | '\x00' => "\\0"
  | '\t' => "\\t"
  | '\n' => "\\n"
  | '\r' => "\\r"
  | '"' => "\\\""
  | '\\' => "\\\\"
  | c =>
    if c.toNat < 0x20 || c.toNat = 0x7F then
      "\\u\x7b" ++ String.ofList (Nat.toDigits 16 c.toNat) ++ "\x7d"
    else c.toString

def quotedText (s : String) : String := "\"" ++ String.join (s.toList.map quotedChar) ++ "\""

def floatDescription (f : Float) : String :=
  match Binary64.shape f with
  | .finite negative m =>
    let d := Decimal.shortest .up m
    let e := d.scientificExponent
    let magnitude :=
      if m.significand = 0 then ['0', '.', '0']
      else if -4 ≤ e ∧ e ≤ 15 then
        -- a whole number is told from an integer by its point
        if 0 ≤ d.exponent then d.positional ++ ['.', '0'] else d.positional
      else d.scientific ++ 'e' :: (toString e).toList
    String.ofList (if negative then '-' :: magnitude else magnitude)
  | .infinite negative => if negative then "-inf" else "inf"
  | .nan => "NaN"

namespace Value

mutual

/-- A value in a message. -/
def description : Value → String
  | nil => "Nil"
  | boolean b => "Boolean(" ++ (if b then "true" else "false") ++ ")"
  | integer n => "Integer(" ++ int64Text n ++ ")"
  | float f => "Float(" ++ floatDescription f ++ ")"
  | text s => "Text(" ++ quotedText s ++ ")"
  | sequence items => "Sequence([" ++ String.intercalate ", " (itemDescriptions items) ++ "])"
  | mapping fields =>
    "Mapping(\x7b" ++ String.intercalate ", " (fieldDescriptions fields) ++ "\x7d)"

def itemDescriptions : List Value → List String
  | [] => []
  | v :: rest => description v :: itemDescriptions rest

def fieldDescriptions : List (String × Value) → List String
  | [] => []
  | (name, v) :: rest => (quotedText name ++ ": " ++ description v) :: fieldDescriptions rest

end

example : (sequence [text "a\n", integer (-1)]).description =
    "Sequence([Text(\"a\\n\"), Integer(-1)])" := by decide +kernel

end Value

end ScriptStore
