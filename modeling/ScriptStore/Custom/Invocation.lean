import ScriptStore.Custom.Access
import ScriptStore.Options

/-!
# Running a custom command

An invocation is a script on its way together with the keyspace that it works on. It goes on in
steps: most are steps of the script alone; when the script asks for a command, the step runs that
command; and after every so many steps of a limited run, one looks at the clock and interrupts the
script once its time is up.

* `Script.Routine.publish` — gives the environment fresh tables of keys and arguments.
* `Invocation.start`, `Invocation.step`, `Invocation.result?` — the beginning, a step, the end.
* `Invocation.readsClock` — whether the next step looks at the clocks.

This is `execute` with its hook, `run` and `originating_message`; the keys and arguments are those of
`build_keys` and `build_argv`.
-/

namespace ScriptStore

open Script (Val Table Heap Routine Machine Chunk)

/-- Binds a global variable to a new table of texts. -/
def Script.Routine.publishTexts (name : String) (texts : List String) : Routine Unit := do
  let id ← change fun h => h.newTable (.ofList (texts.map .ofString))
  store (.table Heap.globals) (.ofString name) (.table id)

/-- Gives the environment the keys and the other arguments. A metatable of the global variables may
intervene. -/
def Script.Routine.publish (keys args : List String) : Routine Unit := do
  publishTexts "KEYS" keys
  publishTexts "ARGV" args

/-- A script on its way, the keyspace, and when the run began. -/
structure Invocation where
  machine : Machine
  keyspace : Keyspace
  options : Options
  started : Nat

namespace Invocation

def timeoutMessage : Script.Bytes := Script.bytes "Script execution timeout"

def start (options : Options) (started : Nat) (s : Keyspace) (chunk : Chunk) (heap : Heap)
    (keys args : List String) : Invocation :=
  ⟨.start chunk (Routine.publish keys args) heap, s, options, started⟩

/-- Whether the next step checks the time. -/
def checksTime (i : Invocation) : Bool :=
  i.options.timeout.isSome && i.options.interval ≤ i.machine.ticks

def awaitsCommand (i : Invocation) : Bool :=
  match i.machine.control with
  | .asks .. => true
  | _ => false

/-- Whether the next step looks at the clocks. -/
def readsClock (i : Invocation) : Bool := i.awaitsCommand || i.checksTime

def timeIsUp (i : Invocation) (now : Moment) : Bool :=
  match i.options.timeout with
  | none => false
  | some limit => limit * 1000000 < now.nanos - i.started

def step (clock : Readings) (i : Invocation) : Invocation :=
  match i.machine.control with
  | .finished _ => i
  | .asks access args =>
    let (outcome, keyspace) := Custom.ask clock i.keyspace access args
    { i with machine := i.machine.answer access outcome, keyspace }
  | _ =>
    if i.checksTime then
      -- a look takes a step of its own, and the count starts again
      let machine := { i.machine with ticks := 0 }
      { i with
        machine := if i.timeIsUp (clock 0) then machine.interrupt timeoutMessage else machine }
    else { i with machine := i.machine.step }

/-- Steps with their readings of the clocks. -/
def run (i : Invocation) (readings : List Readings) : Invocation :=
  readings.foldl (fun i clock => i.step clock) i

/-- What a script that is over gives: the first of its results as a reply, or its failure. -/
def result? (i : Invocation) : Option (Except Error Value) :=
  match i.machine.control with
  | .finished (.ok vs) =>
    some (((vs.headD .nil).toReply i.machine.heap).mapError .script)
  | .finished (.error message) =>
    some (.error (.script (.uncaught (Utf8.decode message))))
  | _ => none

end Invocation

end ScriptStore
