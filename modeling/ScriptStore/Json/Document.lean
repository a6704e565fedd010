import ScriptStore.Json.Token
import ScriptStore.Value.Basic

/-!
# JSON documents

* `Value.json` — the compact text of a value. Nothing in it tells which kind of value was
  written but the JSON itself: `nil` is `null`, a sequence is an array, a mapping an object.
* `Value.ofJson?` — the value of a text that is one document. Containers nest at most
  `depthLimit - 1` deep, and the last of several members with one name counts.
* `Value.ofJsonBy?` — the same with another reader of doubles.

Tokens are read one at a time. The containers that are still open form a stack, and `Expect`
says what may come next.

Values are written and read as their `Serialize` and `Deserialize` and the conversion from documents
say.
-/

namespace ScriptStore

namespace Json

/-! ## Writing -/

mutual

def tokens : Value → List Token
  | .nil => [.null]
  | .boolean b => [.boolean b]
  | .integer n => [.integer n]
  | .float f => [.float f]
  | .text s => [.text s]
  | .sequence items => .openArray :: itemTokens items ++ [.closeArray]
  | .mapping fields => .openObject :: memberTokens fields ++ [.closeObject]

/-- The tokens of an array's items, with commas between. -/
def itemTokens : List Value → List Token
  | [] => []
  | [v] => tokens v
  | v :: rest => tokens v ++ .comma :: itemTokens rest

/-- The tokens of an object's members, with commas between. -/
def memberTokens : List (String × Value) → List Token
  | [] => []
  | [(name, v)] => .text name :: .colon :: tokens v
  | (name, v) :: rest => .text name :: .colon :: tokens v ++ .comma :: memberTokens rest

end

/-! ## Reading -/

/-- How many containers may not be open at once. -/
def depthLimit : Nat := 128

/-- An open container with what it holds so far: items, newest first, or members, and the name
that waits for its value. -/
inductive Frame where
  | array (items : List Value)
  | object (fields : Fields Value)
  | member (fields : Fields Value) (name : String)

inductive Expect where
  | value
  | valueOrClose
  | name
  | nameOrClose
  | colon
  | separator
  | done (v : Value)

/-- A document between two tokens. The innermost open container comes first. -/
structure Builder where
  stack : List Frame
  expect : Expect

def Builder.empty : Builder := ⟨[], .value⟩

/-- A finished value in its place. -/
def place (v : Value) : List Frame → Option Builder
  | [] => some ⟨[], .done v⟩
  | .array items :: rest => some ⟨.array (v :: items) :: rest, .separator⟩
  | .member fields name :: rest => some ⟨.object (fields.insert name v) :: rest, .separator⟩
  | .object _ :: _ => none

/-- A container that opens. -/
def push (frame : Frame) (expect : Expect) (stack : List Frame) : Option Builder :=
  if stack.length + 1 < depthLimit then some ⟨frame :: stack, expect⟩ else none

/-- A token where a value may stand. -/
def beginValue (stack : List Frame) : Token → Option Builder
  | .null => place .nil stack
  | .boolean b => place (.boolean b) stack
  | .integer n => place (.integer n) stack
  | .float f => place (.float f) stack
  | .text s => place (.text s) stack
  | .openArray => push (.array []) .valueOrClose stack
  | .openObject => push (.object []) .nameOrClose stack
  | _ => none

/-- The innermost container closes. -/
def close : Token → List Frame → Option Builder
  | .closeArray, .array items :: rest => place (.sequence items.reverse) rest
  | .closeObject, .object fields :: rest => place (.mapping fields) rest
  | _, _ => none

/-- The name of a member. -/
def beginMember : Token → List Frame → Option Builder
  | .text name, .object fields :: rest => some ⟨.member fields name :: rest, .colon⟩
  | _, _ => none

def Builder.step (b : Builder) (t : Token) : Option Builder :=
  match b.expect, t with
  | .value, t => beginValue b.stack t
  | .valueOrClose, .closeArray => close .closeArray b.stack
  | .valueOrClose, t => beginValue b.stack t
  | .nameOrClose, .closeObject => close .closeObject b.stack
  | .nameOrClose, t | .name, t => beginMember t b.stack
  | .colon, .colon => some ⟨b.stack, .value⟩
  | .colon, _ => none
  | .separator, .comma =>
    match b.stack with
    | .array _ :: _ => some ⟨b.stack, .value⟩
    | .object _ :: _ => some ⟨b.stack, .name⟩
    | _ => none
  | .separator, t => close t b.stack
  | .done _, _ => none

def ofTokens? (ts : List Token) : Option Value := do
  let b ← ts.foldlM Builder.step .empty
  match b.expect with
  | .done v => some v
  | _ => none

end Json

def Value.json (v : Value) : String :=
  String.ofList ((Json.tokens v).flatMap Json.Token.chars)

/-- The value of a text that is one document, its doubles read by `read`. -/
def Value.ofJsonBy? (read : Json.FloatReader) (text : String) : Option Value :=
  (Json.Token.ofText? read text.toList).bind Json.ofTokens?

def Value.ofJson? (text : String) : Option Value := ofJsonBy? Json.scaledFloat? text

end ScriptStore
