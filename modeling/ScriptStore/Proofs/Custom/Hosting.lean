import ScriptStore.Proofs.Keyspace.Calls
import ScriptStore.Store

/-!
# Scripts under any interpreter

The library has no more of the language of scripts than custom commands call for. What the store
does with scripts does not hang on that. Here the language is a parameter: any interpreter, with
coroutines, with handlers that run when a variable goes out of scope, with finalizers that run when
it sees fit, and with whatever else it runs of its own accord.

* `Interpreter` — an interpreter as the store sees it. It goes on by itself, runs the hook that looks
  at the clock, asks for a command, or rests: then it has done what it has been entered for.
* `Hosted`, `Hosted.step` — an interpreter with the keyspace that it works on, and what the store does
  when the interpreter turns to it.
* `Hosted.issued` — the commands that are asked for in a run; `Hosted.keyspace_run` — **a run leaves
  the keyspace as these commands leave it**, each of them run once, in their order.
* `Use`, `Hosted.keyspace_after` — the same across everything that the store has an interpreter do.
* `Script.interpreter`, `Invocation.hosted` — the interpreter of this library, and a call of a custom
  command in its hands.
-/

namespace ScriptStore

open Script (StoreAccess Val)

/-- The command that is issued by a call of a store function, unless its arguments are none. -/
def Issued.of? (clock : Readings) (call : StoreAccess × List Val) : Option Issued :=
  (Custom.commandOf call.1 call.2).toOption.map fun command => ⟨clock, command.1, command.2⟩

/-- What an interpreter does next. Not all that it does counts as an instruction. -/
inductive Doing where
  | executes (counted : Bool)
  | looks
  | asks (access : StoreAccess) (args : List Val)
  | rests

/-- An interpreter as the store sees it. `look` goes on behind the hook, which may fail with a
message, and `answer` behind a command. -/
structure Interpreter where
  State : Type
  doing : State → Doing
  execute : State → State
  look : State → Option Script.Bytes → State
  answer : State → StoreAccess → Except Error Value → State

/-- An interpreter at work on a keyspace, the time that it has, and when it has been entered. -/
structure Hosted (I : Interpreter) where
  state : I.State
  keyspace : Keyspace
  timeout : Option Nat
  started : Nat

namespace Hosted

variable {I : Interpreter} {h : Hosted I}

def timeIsUp (h : Hosted I) (now : Moment) : Bool :=
  match h.timeout with
  | none => false
  | some limit => limit * 1000000 < now.nanos - h.started

/-- One step. -/
def step (clock : Readings) (h : Hosted I) : Hosted I :=
  match I.doing h.state with
  | .rests => h
  | .asks access args =>
    let (outcome, keyspace) := Custom.ask clock h.keyspace access args
    { h with state := I.answer h.state access outcome, keyspace }
  | .looks =>
    -- the hook fails once the time is up
    let failure := if h.timeIsUp (clock 0) then some Invocation.timeoutMessage else none
    { h with state := I.look h.state failure }
  | .executes _ => { h with state := I.execute h.state }

/-- Steps with their readings of the clocks. -/
def run (h : Hosted I) (clocks : List Readings) : Hosted I :=
  clocks.foldl (fun h clock => h.step clock) h

theorem run_append (h : Hosted I) (clocks more : List Readings) :
    h.run (clocks ++ more) = (h.run clocks).run more := List.foldl_append

/-! ## Commands -/

/-- The command that the next step runs. -/
def issues (h : Hosted I) (clock : Readings) : List Issued :=
  match I.doing h.state with
  | .asks access args => (Issued.of? clock (access, args)).toList
  | _ => []

/-- The commands that the interpreter asks for in a run. -/
def issued (h : Hosted I) : List Readings → List Issued
  | [] => []
  | clock :: clocks => h.issues clock ++ (h.step clock).issued clocks

theorem issued_append (h : Hosted I) (clocks more : List Readings) :
    h.issued (clocks ++ more) = h.issued clocks ++ (h.run clocks).issued more := by
  induction clocks generalizing h with
  | nil => rfl
  | cons clock clocks ih =>
    rw [List.cons_append, issued, issued, ih, List.append_assoc]
    rfl

/-- A step touches the keyspace only by running the command that the interpreter asks for. -/
theorem keyspace_step (h : Hosted I) (clock : Readings) :
    (h.step clock).keyspace = h.keyspace.replay (h.issues clock) := by
  unfold step issues
  cases I.doing h.state with
  | asks access args =>
    simp only [Custom.ask, Issued.of?]
    cases Custom.commandOf access args <;> rfl
  | _ => rfl

/-- **A run leaves the keyspace as the commands leave it that have been asked for.** -/
theorem keyspace_run (h : Hosted I) (clocks : List Readings) :
    (h.run clocks).keyspace = h.keyspace.replay (h.issued clocks) := by
  induction clocks generalizing h with
  | nil => rfl
  | cons clock clocks ih =>
    rw [issued, Keyspace.replay_append, ← keyspace_step]
    exact ih (h.step clock)

/-- An interpreter that rests does nothing. -/
theorem step_of_rests (rests : I.doing h.state = .rests) (clock : Readings) : h.step clock = h := by
  simp only [step, rests]

theorem run_of_rests (rests : I.doing h.state = .rests) (clocks : List Readings) :
    h.run clocks = h ∧ h.issued clocks = [] := by
  induction clocks with
  | nil => exact ⟨rfl, rfl⟩
  | cons clock clocks ih =>
    obtain ⟨hrun, hissued⟩ := ih
    have hstep := step_of_rests rests clock
    have hnone : h.issues clock = [] := by simp only [issues, rests]
    refine ⟨?_, ?_⟩
    · rw [run, List.foldl_cons, hstep]
      exact hrun
    · rw [issued, hstep, hnone, hissued]
      rfl

end Hosted

/-! ## Uses -/

/-- Something that the store has an interpreter do: to read a source, to bind the arguments of a
call, to run a script, to look into its results, or to let go of all that there is. The interpreter
is entered in the state that it was left in, and takes steps. -/
structure Use (I : Interpreter) where
  enter : I.State → I.State
  started : Nat
  clocks : List Readings

namespace Hosted

variable {I : Interpreter}

def enter (h : Hosted I) (use : Use I) : Hosted I :=
  { h with state := use.enter h.state, started := use.started }

/-- An interpreter behind one use after another. -/
def after (h : Hosted I) (uses : List (Use I)) : Hosted I :=
  uses.foldl (fun h use => (h.enter use).run use.clocks) h

/-- The commands that the interpreter asks for in all of them. -/
def issuedIn (h : Hosted I) : List (Use I) → List Issued
  | [] => []
  | use :: uses =>
    (h.enter use).issued use.clocks ++ ((h.enter use).run use.clocks).issuedIn uses

/-- **Whatever a store has an interpreter do, its keyspace is left as the commands leave it that have
been asked for.** -/
theorem keyspace_after (h : Hosted I) (uses : List (Use I)) :
    (h.after uses).keyspace = h.keyspace.replay (h.issuedIn uses) := by
  induction uses generalizing h with
  | nil => rfl
  | cons use uses ih =>
    have hfirst : ((h.enter use).run use.clocks).keyspace =
        h.keyspace.replay ((h.enter use).issued use.clocks) := keyspace_run (h.enter use) _
    rw [issuedIn, Keyspace.replay_append, ← hfirst]
    exact ih ((h.enter use).run use.clocks)

end Hosted

/-! ## The interpreter of the library -/

/-- The interpreter of this library. With a limit of time, it runs the hook once it has executed as
many instructions as are between two looks. -/
def Script.interpreter (options : Options) : Interpreter where
  State := Script.Machine
  doing m :=
    match m.control with
    | .finished _ => .rests
    | .asks access args => .asks access args
    | control =>
      if options.timeout.isSome && options.interval ≤ m.ticks then .looks
      else .executes (control.ticks = 1)
  execute := Script.Machine.step
  look m failure :=
    match failure with
    | none => { m with ticks := 0 }
    | some message => Script.Machine.interrupt { m with ticks := 0 } message
  answer := Script.Machine.answer

/-- A call of a custom command as a use of that interpreter. -/
def Invocation.hosted (options : Options) (i : Invocation) : Hosted (Script.interpreter options) :=
  ⟨i.machine, i.keyspace, i.options.timeout, i.started⟩

end ScriptStore
