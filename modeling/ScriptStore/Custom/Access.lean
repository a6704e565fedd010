import ScriptStore.Custom.Conversion
import ScriptStore.Keyspace.Dispatch
import ScriptStore.Script.Machine.Step

/-!
# Scripts and the keyspace

A script reaches the keyspace in two ways that run the same commands. They differ in what a failure
becomes: one raises it, the other answers a table that holds its message.

* `commandOf` — the command that a script asks for.
* `ask` — runs it, and tells what it replied or why it failed.
* `Script.Machine.answer` — the script goes on with that.

These are `run_command` and `error_reply`, and the functions that `install` puts into the table
`redis`.
-/

namespace ScriptStore

open Script (Val Key Table Heap Machine StoreAccess)

namespace Custom

/-- The name of a way to the keyspace in messages. -/
def accessName : StoreAccess → String
  | .strict => "call"
  | .lenient => "pcall"

def commandOf (access : StoreAccess) (args : List Val) :
    Except CommandFault (String × List String) :=
  match args with
  | [] => .error (.nothingToCall (accessName access))
  | name :: rest => do
    let name ← name.toArgument
    let rest ← rest.mapM Val.toArgument
    return (name, rest)

def ask (clock : Readings) (s : Keyspace) (access : StoreAccess) (args : List Val) : Outcome :=
  match commandOf access args with
  | .error fault => (.error (.command fault), s)
  | .ok (name, args) => s.dispatch clock name args

/-- The table that stands for a failed command. -/
def errorTable (message : String) : Table :=
  Table.empty.set (.ofString "err") (.ofString message)

end Custom

/-- A script goes on with the outcome of a command that it asked for. -/
def Script.Machine.answer (m : Machine) (access : StoreAccess) (outcome : Except Error Value) :
    Machine :=
  match outcome, access with
  | .ok reply, _ =>
    let (v, heap) := reply.toScript m.heap
    m.reply [v] heap
  | .error e, .strict => m.interrupt (Script.bytes e.message)
  | .error e, .lenient =>
    let (id, heap) := m.heap.newTable (Custom.errorTable e.message)
    m.reply [.table id] heap

end ScriptStore
