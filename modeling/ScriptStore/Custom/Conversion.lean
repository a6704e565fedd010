import ScriptStore.Script.Heap
import ScriptStore.Value.Basic

/-!
# Values inside and outside scripts

* `Value.toScript` — a value of the store as one of a script. Sequences and mappings become new
  tables.
* `Script.Val.toReply` — what a script answers as a value of the store. A table with something at
  index 1, or with nothing at all, is the sequence of its items up to the first gap; any other table
  is a mapping. Tables nest at most `replyDepth` deep.
* `Script.Val.toArgument` — a value of a script as an argument of a command.

Metatables play no part in either direction.

These are `to_lua`, `first_return`, `convert` with `table_to_value` and `table_to_mapping`, and
`to_command_arg`.
-/

namespace ScriptStore

open Script (Val Key Table Heap Bytes)

/-! ## Into scripts -/

mutual

def Value.toScript : Value → Heap → Val × Heap
  | .nil, h => (.nil, h)
  | .boolean b, h => (.bool b, h)
  | .integer n, h => (.int n, h)
  | .float f, h => (.float f, h)
  | .text s, h => (.ofString s, h)
  | .sequence items, h =>
    let (vs, h) := itemsToScript items h
    let (id, h) := h.newTable (Table.empty.fill vs)
    (.table id, h)
  | .mapping members, h =>
    let (t, h) := membersToScript members h
    let (id, h) := h.newTable t
    (.table id, h)

def itemsToScript : List Value → Heap → List Val × Heap
  | [], h => ([], h)
  | item :: items, h =>
    let (v, h) := item.toScript h
    let (vs, h) := itemsToScript items h
    (v :: vs, h)

def membersToScript : List (String × Value) → Heap → Table × Heap
  | [], h => (.empty, h)
  | (name, member) :: members, h =>
    let (v, h) := member.toScript h
    let (t, h) := membersToScript members h
    (t.set (.str (Script.bytes name)) v, h)

end

/-! ## Out of scripts -/

namespace Script

/-- How deep the tables of a reply may nest. -/
def replyDepth : Nat := 64

/-- The name that a key has in a mapping, if it has one. -/
def Key.fieldName? : Key → Option String
  | .str s => some (Utf8.decode s)
  | .int n => some (int64Text n)
  | .float bits => some (floatArgument (Float.ofBits bits))
  | .bool b => some (if b then "true" else "false")
  | _ => none

/-- The items of a table from index `i` on, up to the first gap. -/
def Table.itemsFrom (t : Table) : Nat → Nat → List Val
  -- no table has more items than entries
  | 0, _ => []
  | fuel + 1, i =>
    match t.item i with
    | .nil => []
    | v => v :: itemsFrom t fuel (i + 1)

def Table.items (t : Table) : List Val := t.itemsFrom t.entries.size 1

/-- Whether a table is answered as a mapping. -/
def Table.isMapping (t : Table) : Bool := (t.item 1).isNil && !t.entries.isEmpty

/-- The entries of a table that are named in a mapping. -/
def Table.members (t : Table) : List (String × Val) :=
  t.entries.toList.filterMap fun p => p.1.fieldName?.map fun name => (name, p.2)

/-- A value of a script as a reply, with so many tables still allowed to nest. -/
def Val.toReplyWithin (h : Heap) : Nat → Val → Except ScriptFault Value
  | _, .nil | _, .bool false => .ok .nil
  | _, .bool true => .ok (.integer 1)
  | _, .int n => .ok (.integer n)
  | _, .float f => .ok (.float f)
  | _, .str s => .ok (.text (Utf8.decode s))
  | 0, .table _ => .error .replyTooDeep
  | depth + 1, .table id => do
    let t := h.table id
    if t.isMapping then
      let members ← t.members.mapM fun p => do return (p.1, ← toReplyWithin h depth p.2)
      return .mapping (Fields.ofPairs members)
    else
      let items ← t.items.mapM (toReplyWithin h depth)
      return .sequence items
  | _, .closure _ | _, .builtin _ | _, .failure _ => .ok .nil

def Val.toReply (h : Heap) (v : Val) : Except ScriptFault Value := v.toReplyWithin h replyDepth

/-- A value of a script as an argument of a command: a string or a number. -/
def Val.toArgument : Val → Except CommandFault String
  | .str s => .ok (Utf8.decode s)
  | .int n => .ok (int64Text n)
  | .float f => .ok (floatArgument f)
  | _ => .error .unsuitableArgument

end Script

end ScriptStore
