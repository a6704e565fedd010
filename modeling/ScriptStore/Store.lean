import ScriptStore.Custom.Registry
import ScriptStore.Value.Description

/-!
# The store

A store is a keyspace with custom commands on top.

* `Store.new`, `Store.withOptions` — a store without keys.
* `Store.command` — runs a built-in command on values; `Store.get` and its neighbours are the same
  with typed arguments and replies.
* `Store.define`, `Store.definedCommands`, `Store.dispose` — custom commands.
* `Store.begin` — calls a custom command. The answer is a failure at once, or a run that goes on
  with `Running.step` until `Running.outcome?` gives the result and the store after it.

This is `Store` with all its operations. A handle to the keyspace alone, which `keyspace` gives, is
the keyspace of a store here.
-/

namespace ScriptStore

/-- A keyspace, the state of scripting, and how scripts run. -/
structure Store where
  keyspace : Keyspace
  scripting : Scripting
  options : Options

/-- An answer and the store after it. -/
abbrev Answer (α : Type) := Except Error α × Store

/-- A call of a custom command that has begun. -/
structure Running where
  invocation : Invocation
  definitions : Std.TreeMap String Definition

namespace Running

def step (clock : Readings) (r : Running) : Running :=
  { r with invocation := r.invocation.step clock }

/-- Whether the next step looks at the clocks. -/
def readsClock (r : Running) : Bool := r.invocation.readsClock

/-- The result and the store after it, once the script is over. -/
def outcome? (r : Running) : Option (Answer Value) :=
  r.invocation.result?.map fun result =>
    let i := r.invocation
    (result, ⟨i.keyspace, .ready ⟨i.machine.heap, r.definitions⟩, i.options⟩)

end Running

namespace Store

/-- A store with checked options. -/
def build (options : Options) : Store := ⟨.empty, .unused, options⟩

def new : Store := build .default

def withOptions (options : Options) : Except Error Store := options.check.map build

def dispatch (clock : Readings) (s : Store) (name : String) (args : List String) : Answer Value :=
  let (reply, keyspace) := s.keyspace.dispatch clock name args
  (reply, { s with keyspace })

/-- Runs a built-in command on values. Arguments that are none are refused before the command is
looked at. -/
def command (clock : Readings) (s : Store) (name : String) (args : List Value) : Answer Value :=
  match Value.arguments args with
  | .error e => (.error e, s)
  | .ok args => s.dispatch clock name args

/-! ## Commands with typed arguments and replies -/

def integerReply (command : String) : Value → Except Error Int64
  | .integer n => .ok n
  | reply => .error (.command (.unexpectedReply command reply.description))

def textReply (command : String) : Value → Except Error (Option String)
  | .nil => .ok none
  | .text s => .ok (some s)
  | reply => .error (.command (.unexpectedReply command reply.description))

/-- An answer seen through a reader of replies. -/
def through {α : Type} (answer : Answer Value) (read : Value → Except Error α) : Answer α :=
  (answer.1.bind read, answer.2)

def get (clock : Readings) (s : Store) (key : String) : Answer (Option String) :=
  through (s.command clock "GET" [.text key]) (textReply "GET")

/-- Binds a key to a scalar. -/
def set (clock : Readings) (s : Store) (key : String) (value : Value) : Answer Unit :=
  through (s.command clock "SET" [.text key, value]) fun _ => .ok ()

def del (clock : Readings) (s : Store) (keys : List String) : Answer Int64 :=
  through (s.command clock "DEL" (keys.map .text)) (integerReply "DEL")

/-- Counts the keys that are there. -/
def exist (clock : Readings) (s : Store) (keys : List String) : Answer Int64 :=
  through (s.command clock "EXISTS" (keys.map .text)) (integerReply "EXISTS")

/-- Adds 1 to a counter. -/
def incr (clock : Readings) (s : Store) (key : String) : Answer Int64 :=
  through (s.command clock "INCR" [.text key]) (integerReply "INCR")

/-- Sets a key's time to live in milliseconds; the answer is whether it was there. -/
def pexpire (clock : Readings) (s : Store) (key : String) (millis : Int64) : Answer Bool :=
  through (s.command clock "PEXPIRE" [.text key, .integer millis]) fun reply =>
    (integerReply "PEXPIRE" reply).map (· == 1)

/-- The milliseconds that a key has left, -1 if it does not expire, -2 if it is not there. -/
def pttl (clock : Readings) (s : Store) (key : String) : Answer Int64 :=
  through (s.command clock "PTTL" [.text key]) (integerReply "PTTL")

def zcard (clock : Readings) (s : Store) (key : String) : Answer Int64 :=
  through (s.command clock "ZCARD" [.text key]) (integerReply "ZCARD")

def setClientName (clock : Readings) (s : Store) (name : String) : Answer Unit :=
  through (s.command clock "CLIENT" [.text "SETNAME", .text name]) fun _ => .ok ()

def clientName (clock : Readings) (s : Store) : Answer (Option String) :=
  through (s.command clock "CLIENT" [.text "GETNAME"]) (textReply "CLIENT GETNAME")

def size (now : Moment) (s : Store) : Nat := s.keyspace.liveCount now

def isEmpty (now : Moment) (s : Store) : Bool := s.size now = 0

/-! ## Custom commands -/

/-- Defines a custom command. -/
def defineBy (compile : Compiler) (s : Store) (name : String) (keys : Nat) (source : String) :
    Answer Unit :=
  let (result, scripting) := s.scripting.defineBy compile name keys source
  (result, { s with scripting })

def define : Store → String → Nat → String → Answer Unit := defineBy Script.Chunk.ofSource

def definedCommands (s : Store) : List String := s.scripting.names

/-- Ends scripting for good. -/
def dispose (s : Store) : Store := { s with scripting := .disposed }

def isDisposed (s : Store) : Bool := s.scripting.isDisposed

/-- How a call of a custom command begins. -/
inductive Begun where
  | refused (error : Error) (store : Store)
  | running (run : Running)

/-- Calls a custom command. The first arguments are its keys. -/
def begin (now : Moment) (s : Store) (name : String) (args : List Value) : Begun :=
  match Value.arguments args with
  | .error e => .refused e s
  | .ok args =>
    match s.scripting.environment with
    | .error e => .refused e s
    | .ok env =>
      match Scripting.find env name args with
      | .error e => .refused e { s with scripting := .ready env }
      | .ok d =>
        .running
          { invocation := .start s.options now.nanos s.keyspace d.chunk env.heap
              (args.take d.keys) (args.drop d.keys)
            definitions := env.definitions }

end Store

end ScriptStore
