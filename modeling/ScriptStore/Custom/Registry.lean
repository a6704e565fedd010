import Std.Data.TreeMap
import ScriptStore.Custom.Invocation
import ScriptStore.Script.Parser.Grammar

/-!
# Custom commands

Custom commands are scripts under names. They share one environment, which is made when it is first
needed and lives until scripting is disposed of; after that nothing can be defined or run.

* `Definition`, `Scripting` — a custom command, and the state of scripting.
* `Scripting.define`, `Scripting.names`, `Scripting.find` — defining, listing and finding commands;
  `Scripting.defineBy` does the first with any `Compiler`.

This is `ScriptRuntime` with its `CommandRegistry`: `init`, `define`, `command_names`, `dispose`, and
the part of `invoke` that comes before the script.
-/

namespace ScriptStore

open Script (Heap Chunk)

/-- What makes a program of a source, or finds a fault in it. -/
abbrev Compiler := String → Except Script.SourceFault Chunk

/-- A custom command: how many of its arguments are keys, and its program. -/
structure Definition where
  keys : Nat
  chunk : Chunk

/-- The environment of scripts, and the custom commands. -/
structure Environment where
  heap : Heap
  definitions : Std.TreeMap String Definition

def Environment.fresh : Environment := ⟨.initial, ∅⟩

inductive Scripting where
  | unused
  | ready (environment : Environment)
  | disposed

namespace Scripting

/-- The environment, which is made if there has been none. -/
def environment : Scripting → Except Error Environment
  | unused => .ok .fresh
  | ready e => .ok e
  | disposed => .error (.lifecycle .disposed)

def names : Scripting → List String
  | ready e => e.definitions.keys
  | _ => []

def isDisposed : Scripting → Bool
  | disposed => true
  | _ => false

/-- Defines a custom command, in place of an earlier one of that name. A source that is no program
changes nothing. -/
def defineBy (compile : Compiler) (s : Scripting) (name : String) (keys : Nat) (source : String) :
    Except Error Unit × Scripting :=
  match s.environment with
  | .error e => (.error e, s)
  | .ok env =>
    match compile source with
    | .error fault =>
      (.error (.script (.doesNotCompile name (Utf8.decode fault.message))), ready env)
    | .ok chunk =>
      (.ok (), ready { env with definitions := env.definitions.insert name ⟨keys, chunk⟩ })

def define : Scripting → String → Nat → String → Except Error Unit × Scripting :=
  defineBy Chunk.ofSource

/-- The custom command of a name that is called with these arguments, if there are enough for its
keys. -/
def find (env : Environment) (name : String) (args : List String) : Except Error Definition :=
  match env.definitions[name]? with
  | none => .error (.command (.unknownCustom name))
  | some d =>
    if args.length < d.keys then
      .error (.invalidArgument (.tooFewArguments name d.keys args.length))
    else .ok d

end Scripting

end ScriptStore
