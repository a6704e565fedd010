import ScriptStore.Script.Library.Base
import ScriptStore.Script.Library.Format
import ScriptStore.Script.Library.Strings
import ScriptStore.Script.Library.Tables

/-!
# The library

`Builtin.run` is what the functions of the environment do. A protected call and the two ways to the
store are not among them: these concern the run of the script as a whole.

This is a part of the standard library of Lua 5.4. What is left out, such as `xpcall`, `rawget`,
`coroutine`, `os` and most of `string` and `math`, is `nil` here, and `print` shows nothing.
-/

namespace ScriptStore.Script

open Library

/-- The name of a library function in messages. -/
def Builtin.name : Builtin → String
  | .type => "type"
  | .tostring => "tostring"
  | .tonumber => "tonumber"
  | .error => "error"
  | .assert => "assert"
  | .pcall => "pcall"
  | .select => "select"
  | .ipairs => "ipairs"
  | .pairs => "pairs"
  | .setmetatable => "setmetatable"
  | .print => "print"
  | .next => "for iterator"
  | .step => "for iterator"
  | .stringRep => "rep"
  | .stringFormat => "format"
  | .stringSub => "sub"
  | .stringUpper => "upper"
  | .tableConcat => "concat"
  | .tableInsert => "insert"
  | .tableUnpack => "unpack"
  | .tableSort => "sort"
  | .mathType => "type"
  | .storeCall => "call"
  | .storeTry => "pcall"

def Builtin.run (b : Builtin) (args : List Val) : Routine (List Val) :=
  let c : Call := ⟨b.name, args⟩
  match b with
  | .type => typeOf c
  | .tostring => textOf c
  | .tonumber => numberOf c
  | .error => failWith c
  | .assert => assertTrue c
  | .select => selectFrom c
  | .ipairs => itemsOf c
  | .pairs => pairsOf c
  | .setmetatable => setMetatable c
  | .print => pure []
  | .next => nextEntry c
  | .step => nextItem c
  | .stringRep => repeatString c
  | .stringFormat => format c
  | .stringSub => subString c
  | .stringUpper => upperCase c
  | .tableConcat => concatItems c
  | .tableInsert => insertItem c
  | .tableUnpack => unpackItems c
  | .tableSort => sortItems c
  | .mathType => numberType c
  | .pcall | .storeCall | .storeTry => pure []

/-! ## The environment -/

def namedTable (fields : List (String × Val)) : Table :=
  fields.foldl (fun t p => t.set (.ofString p.1) p.2) .empty

def functions (fs : List (String × Builtin)) : List (String × Val) :=
  fs.map fun p => (p.1, .builtin p.2)

/-- The environment of fresh scripts. Its tables have fixed numbers: the global variables, the
functions on strings, those on tables, those on numbers, and the ways to the store. -/
def Heap.initial : Heap :=
  let globals := functions
    [("type", .type), ("tostring", .tostring), ("tonumber", .tonumber), ("error", .error),
      ("assert", .assert), ("pcall", .pcall), ("select", .select), ("ipairs", .ipairs),
      ("pairs", .pairs), ("setmetatable", .setmetatable), ("print", .print)] ++
    [("_G", .table Heap.globals), ("string", .table Heap.strings), ("table", .table 2),
      ("math", .table 3), ("redis", .table 4)]
  let strings := functions
    [("rep", .stringRep), ("format", .stringFormat), ("sub", .stringSub),
      ("upper", .stringUpper)]
  let tables := functions
    [("concat", .tableConcat), ("insert", .tableInsert), ("unpack", .tableUnpack),
      ("sort", .tableSort)]
  let numbers := functions [("type", .mathType)] ++
    [("huge", .float (Binary64.infinity false)), ("mininteger", .int (Int64.ofInt (-2 ^ 63)))]
  let store := functions [("call", .storeCall), ("pcall", .storeTry)]
  .ofTables (namedTable globals)
    #[namedTable strings, namedTable tables, namedTable numbers, namedTable store]

end ScriptStore.Script
