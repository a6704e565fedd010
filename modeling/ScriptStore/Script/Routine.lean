import ScriptStore.Script.Operator

/-!
# Routines

A routine is work on the heap that may call functions of the script on the way, as metatables and
some library functions ask for. It does not call them itself: it stops at each call and says how it
goes on with the results. Whoever runs it, runs the function.

* `Fault` — why a routine or a script fails.
* `Outcome`, `Routine` — routines, with the usual sequencing.
* `index`, `store`, `lengthOf`, `tostring` — what the language does with values that may have a
  metatable.
* `lastWords` — the message of a value that nothing catches.
-/

namespace ScriptStore.Script

/-- Why a run fails: with a value as it is, with a message of a library function, which names the
place of the call `level` calls out, or with a message of an operation, which names the place of the
operation if it stands in a script. -/
inductive Fault where
  | value (v : Val)
  | message (level : Nat) (text : Bytes)
  | operation (text : String)

/-- Where a routine stops: at its end, at a failure, or at a call. -/
inductive Outcome (α : Type) where
  | done (a : α) (h : Heap)
  | failed (f : Fault) (h : Heap)
  | calls (f : Val) (args : List Val) (h : Heap) (resume : List Val → Heap → Outcome α)

/-- Work on the heap. -/
def Routine (α : Type) : Type := Heap → Outcome α

namespace Outcome

/-- An outcome with more work behind its end. -/
def bind {α β : Type} : Outcome α → (α → Heap → Outcome β) → Outcome β
  | done a h, k => k a h
  | failed f h, _ => failed f h
  | calls f args h resume, k => calls f args h fun results h => (resume results h).bind k

end Outcome

namespace Routine

instance : Monad Routine where
  pure a := fun h => .done a h
  bind r k := fun h => (r h).bind k

/-- What can be seen in the heap. -/
def read {α : Type} (f : Heap → α) : Routine α := fun h => .done (f h) h

/-- A change of the heap, with what it gives. -/
def change {α : Type} (f : Heap → α × Heap) : Routine α := fun h =>
  let (a, h) := f h
  .done a h

def fail {α : Type} (f : Fault) : Routine α := fun h => .failed f h

/-- Fails with the message of an operation. -/
def failOperation {α : Type} (text : String) : Routine α := fail (.operation text)

/-- Fails with the message of a library function. -/
def failMessage {α : Type} (text : String) : Routine α := fail (.message 1 (bytes text))

/-- Fails over an argument of a library function. -/
def failArgument {α : Type} (index : Nat) (function text : String) : Routine α :=
  failMessage ("bad argument #" ++ toString index ++ " to '" ++ function ++ "' (" ++ text ++ ")")

def call (f : Val) (args : List Val) : Routine (List Val) := fun h =>
  .calls f args h fun results h => .done results h

/-- An operator's result. -/
def lift {α : Type} : Except String α → Routine α
  | .ok a => pure a
  | .error text => failOperation text

end Routine

/-! ## Metatables -/

/-- The table of the functions on strings, where strings look their methods up. -/
def Heap.strings : Nat := 1

def Key.ofString (s : String) : Key := .str (bytes s)

/-- Where a metatable says what stands in for missing entries. -/
def metaIndex : Key := .ofString "__index"

/-- Where a metatable says what becomes of values for entries that are missing. -/
def metaNewIndex : Key := .ofString "__newindex"

/-- Where a metatable says what the length is. -/
def metaLength : Key := .ofString "__len"

/-- Where a metatable says what the text is. -/
def metaText : Key := .ofString "__tostring"

/-- Where a metatable says how a loop goes over the entries. -/
def metaPairs : Key := .ofString "__pairs"

/-- What a value's metatable holds under a key. -/
def Heap.metaField (h : Heap) (v : Val) (k : Key) : Val :=
  match v with
  | .table id => ((h.table id).metatable.map fun m => (h.table m).get k).getD .nil
  | _ => .nil

/-- The value of a table under a key, metatables aside. -/
def Heap.rawGet (h : Heap) (id : Nat) (key : Val) : Val :=
  match Key.ofVal? key with
  | some k => (h.table id).get k
  | none => .nil

namespace Routine

/-- How many metatables an access may go through. -/
def chainLimit : Nat := 2000

/-- The value under a key. What a table does not hold, the `__index` of its metatable gives: a
function when called, and anything else when indexed in turn. -/
def indexChain : Nat → Val → Val → Routine Val
  | 0, _, _ => failOperation "'__index' chain too long; possibly a loop"
  | fuel + 1, object, key => fun h =>
    match object with
    | .table id =>
      match h.rawGet id key with
      | .nil =>
        match h.metaField object metaIndex with
        | .nil => .done .nil h
        | .closure f => (do return (← call (.closure f) [object, key]).headD .nil : Routine Val) h
        | .builtin f => (do return (← call (.builtin f) [object, key]).headD .nil : Routine Val) h
        | next => indexChain fuel next key h
      | v => .done v h
    | .str _ => indexChain fuel (.table Heap.strings) key h
    | v => .failed (.operation (v.misuse "index")) h

/-- The value under a key. -/
def index (object key : Val) : Routine Val := indexChain chainLimit object key

/-- Binds a key of a table, metatables aside. -/
def rawStore (id : Nat) (key value : Val) : Routine Unit :=
  match Key.ofVal? key with
  | some k => change fun h => ((), h.modifyTable id fun t => t.set k value)
  | none => failOperation (if key.isNil then "table index is nil" else "table index is NaN")

/-- Binds a key. Where a table does not hold it yet, the `__newindex` of its metatable is given the
value: a function when called, and anything else when the key is bound there in turn. -/
def storeChain : Nat → Val → Val → Val → Routine Unit
  | 0, _, _, _ => failOperation "'__newindex' chain too long; possibly a loop"
  | fuel + 1, object, key, value => fun h =>
    match object with
    | .table id =>
      match h.rawGet id key, h.metaField object metaNewIndex with
      | .nil, .closure f => (do let _ ← call (.closure f) [object, key, value]) h
      | .nil, .builtin f => (do let _ ← call (.builtin f) [object, key, value]) h
      | .nil, .nil => rawStore id key value h
      | .nil, next => storeChain fuel next key value h
      | _, _ => rawStore id key value h
    | v => .failed (.operation (v.misuse "index")) h

/-- Binds a key. -/
def store (object key value : Val) : Routine Unit := storeChain chainLimit object key value

def lengthOf (v : Val) : Routine Val :=
  match v with
  | .str s => pure (.int (Int64.ofNat s.length))
  | .table id => do
    match ← read fun h => h.metaField v metaLength with
    | .nil =>
      let n ← read fun h => (h.table id).length
      return .int (Int64.ofNat n)
    | f => return (← call f [v]).headD .nil
  | v => failOperation (v.misuse "get length of")

/-- Fourteen hexadecimal digits that stand for an identity. -/
def identityText (n : Nat) : String :=
  let digits := Nat.toDigits 16 n
  "0x" ++ String.ofList (List.replicate (14 - digits.length) '0' ++ digits)

/-- A value as text, its metatable aside. -/
def plainText (h : Heap) : Val → Bytes
  | .nil => bytes "nil"
  | .bool b => bytes (if b then "true" else "false")
  | .int n => (Number.int n).text
  | .float f => (Number.float f).text
  | .str s => s
  | .table id => bytes ("table: " ++ identityText id)
  | .closure id => bytes ("function: " ++ identityText id)
  | .builtin b => bytes ("function: " ++ identityText b.ctorIdx)
  | .failure id => h.failure id

/-- The message of a value that nothing catches. That of a failure is whole; any other ends before
its first NUL. -/
def lastWords (h : Heap) : Val → Bytes
  | .failure id => h.failure id
  | v => (plainText h v).takeWhile (· ≠ 0)

/-- A value as text. A metatable may have its own idea of it, which must be a string. -/
def tostring (v : Val) : Routine Bytes := do
  match ← read fun h => h.metaField v metaText with
  | .nil => read fun h => plainText h v
  | f =>
    match (← call f [v]).headD .nil with
    | .str s => return s
    | other =>
      match other.toBytes? with
      | some s => return s
      | none => failMessage "'__tostring' must return a string"

end Routine

end ScriptStore.Script
