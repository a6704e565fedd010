import Mathlib
import ScriptStore.Proofs.Custom.Steps
import ScriptStore.Proofs.Script.Globals

/-!
# What a script finds as its arguments

A call gives the script its keys and its other arguments in two new tables, and binds the global
variables `KEYS` and `ARGV` to them. It binds them as a script would, so a metatable that earlier
scripts have given to the global variables may keep the new tables away.

* `Script.Machine.step_start`, `Invocation.step_start` — the first step of a script goes into its
  body, with what has been prepared for it.
* `arguments_of_body` — **when the body of a custom command starts, `KEYS` and `ARGV` are new tables
  that hold the arguments of the call and nothing else**, unless a metatable keeps them away.
* `stale_arguments_of_body` — with such a metatable a script finds the keys of an earlier call.
-/

namespace ScriptStore

open Script

/-! ## The first step -/

namespace Script

variable {prepare : Routine Unit} {h after : Heap} {chunk : Chunk}

/-- The heap of an environment with the script itself as one more function. -/
def Heap.withChunk (h : Heap) (chunk : Chunk) : Heap := (h.newClosure ⟨chunk.function, []⟩).2

/-- What is in sight of a body: no variables and no arguments. -/
def Env.ofBody : Env := ⟨[], []⟩

/-- A script whose environment has been prepared is about to be called. -/
theorem Machine.start_eq (prepared : prepare (h.withChunk chunk) = .done () after) :
    Machine.start chunk prepare h =
      ⟨.give [], [.begin (.closure h.closures.size)], after, 0⟩ := by
  have hdone : Next.perform (.library none) (do prepare; return [])
      [.begin (.closure h.closures.size)] (h.withChunk chunk) =
      (.give [], [.begin (.closure h.closures.size)], after) := by
    have hbind : (do prepare; return [] : Routine (List Val)) (h.withChunk chunk) =
        (prepare (h.withChunk chunk)).bind fun _ h => .done [] h := rfl
    rw [Next.perform, hbind, prepared]
    rfl
  calc Machine.start chunk prepare h
      = (let next := Next.perform (.library none) (do prepare; return [])
          [.begin (.closure h.closures.size)] (h.withChunk chunk)
        ⟨next.1, next.2.1, next.2.2, 0⟩) := rfl
    _ = _ := by rw [hdone]

/-- The first step of a script goes into its body. -/
theorem Machine.step_start (prepared : prepare (h.withChunk chunk) = .done () after)
    (kept : after.closures = (h.withChunk chunk).closures) :
    (Machine.start chunk prepare h).step =
      ⟨.run (.start chunk.body .ofBody), [.activation none ⟨1, 1⟩], after, 0⟩ := by
  have hclosure : after.closure? h.closures.size = some ⟨chunk.function, []⟩ := by
    simp [Heap.closure?, kept, Heap.withChunk, Heap.newClosure]
  rw [start_eq prepared]
  simp only [Machine.step, Next.after, Next.resume, Next.call, Next.callClosure, hclosure]
  rfl

end Script

/-- The first step of a call goes into the body of its script, whose arguments are published. -/
theorem Invocation.step_start {options : Options} (checked : options.check = .ok options)
    {h after : Heap} {chunk : Chunk} {keys args : List String}
    (published : Routine.publish keys args (h.withChunk chunk) = .done () after) (started : Nat)
    (s : Keyspace) (clock : Readings) :
    (Invocation.start options started s chunk h keys args).step clock =
      { machine := ⟨.run (.start chunk.body .ofBody), [.activation none ⟨1, 1⟩], after, 0⟩
        keyspace := s, options, started } := by
  have hmachine := Machine.start_eq published
  have hrunning : (Invocation.start options started s chunk h keys args).machine.control.isRunning =
      true := by
    rw [Invocation.start, hmachine]
    rfl
  have hunchecked : (Invocation.start options started s chunk h keys args).checksTime = false := by
    refine checksTime_of_reset (Options.interval_pos checked) ?_
    rw [Invocation.start, hmachine]
  have hclosures := Routine.closures_of_publish_eq_done published
  rw [step_of_runs hrunning hunchecked, Invocation.start, Machine.step_start published hclosures]

/-! ## Calls -/

/-- The keys of a call and its other arguments are no more than all of its arguments. -/
theorem length_take_drop_lt {args : List String} {bound : Nat} (short : args.length < bound)
    (keys : Nat) : (args.take keys).length < bound ∧ (args.drop keys).length < bound := by
  rw [List.length_take, List.length_drop]
  omega

variable {s : Store} {env : Environment} {d : Definition} {name : String} {values : List Value}
  {args : List String}

/-- **When the body of a custom command starts, `KEYS` and `ARGV` are new tables that hold the
arguments of the call, text by text, and nothing else.** There may be as many arguments as there are
indices. It takes an environment in which no metatable of the global variables keeps the two from
being bound. -/
theorem arguments_of_body (ready : s.scripting.environment = .ok env)
    (texts : Value.arguments values = .ok args) (found : Scripting.find env name args = .ok d)
    (checked : s.options.check = .ok s.options) (short : args.length < 2 ^ 63)
    (acceptsKeys : env.heap.Accepts "KEYS") (acceptsArgs : env.heap.Accepts "ARGV")
    (now : Moment) (clock : Readings) :
    ∃ r, s.begin now name values = .running r ∧
      let m := (r.step clock).invocation.machine
      m.control = .run (.start d.chunk.body .ofBody) ∧
      ∃ keys argv, keys ≠ argv ∧ env.heap.tables.size ≤ keys ∧ env.heap.tables.size ≤ argv ∧
        m.heap.Published "KEYS" keys (args.take d.keys) ∧
        m.heap.Published "ARGV" argv (args.drop d.keys) := by
  refine ⟨_, Store.begin_eq ready texts found now, ?_⟩
  obtain ⟨hkeys, hargs⟩ := length_take_drop_lt short d.keys
  have hdone : Routine.publish (args.take d.keys) (args.drop d.keys) (env.heap.withChunk d.chunk) =
      .done () _ := Routine.publish_eq acceptsKeys acceptsArgs hkeys hargs
  have hstep := Invocation.step_start checked hdone now.nanos s.keyspace clock
  simp only [Running.step, hstep]
  have hsize : (env.heap.withChunk d.chunk).tables.size = env.heap.tables.size := rfl
  have hpublished := Heap.published_publish (env.heap.withChunk d.chunk) "KEYS" hkeys
  refine ⟨trivial, env.heap.tables.size, env.heap.tables.size + 1, by omega, by omega, by omega,
    ?_, ?_⟩
  · rw [hsize] at hpublished
    refine hpublished.publish ?_ (Heap.globals_ne_size _).symm (by decide) _
    rw [Heap.size_publish, hsize]
    omega
  · have hlast := Heap.published_publish
      ((env.heap.withChunk d.chunk).publish "KEYS" (args.take d.keys)) "ARGV" hargs
    rwa [Heap.size_publish, hsize] at hlast

/-- A script that answers its keys. -/
def echoDefinition : Definition :=
  { keys := 1, chunk := ⟨[.answer [.global (Script.bytes "KEYS") 1]]⟩ }

/-- A store in which that script is a custom command, with an environment. -/
def echoStore (heap : Heap) : Store :=
  { keyspace := .empty
    scripting := .ready { heap, definitions := .ofList [("echo", echoDefinition)] }
    options := .default }

theorem find_echo (heap : Heap) (args : List String) (enough : 1 ≤ args.length) :
    Scripting.find { heap, definitions := .ofList [("echo", echoDefinition)] } "echo" args =
      .ok echoDefinition := by
  have hkeys : ¬ args.length < echoDefinition.keys := Nat.not_lt.mpr enough
  simp [Scripting.find, Std.TreeMap.ofList_singleton, hkeys]

/-- In a fresh environment the arguments of a call are split at the number of its keys. -/
theorem arguments_of_echo :
    ∃ r, (echoStore .initial).begin ⟨0, 0⟩ "echo" [.text "a", .integer 7] = .running r ∧
      let h := (r.step (.frozen ⟨0, 0⟩)).invocation.machine.heap
      ∃ keys argv, h.Published "KEYS" keys ["a"] ∧ h.Published "ARGV" argv ["7"] := by
  have htexts : Value.arguments [.text "a", .integer 7] = .ok ["a", "7"] := by cbv
  have hfound := find_echo .initial ["a", "7"] (by decide)
  obtain ⟨r, hbegin, -, keys, argv, -, -, -, hkeys, hargv⟩ :=
    arguments_of_body (s := echoStore .initial) rfl htexts hfound rfl (by decide)
      (Heap.accepts_initial _) (Heap.accepts_initial _) ⟨0, 0⟩ (.frozen ⟨0, 0⟩)
  exact ⟨r, hbegin, keys, argv, hkeys, hargv⟩

/-! ## Arguments that are kept away -/

/-- A script that keeps its keys, and lets nothing bind `KEYS` any more. -/
def keepingSource : String :=
  "setmetatable(_G, \x7b__newindex = \x7b\x7d, __index = \x7bKEYS = KEYS\x7d\x7d) KEYS = nil"

/-- A new store with that script and one that answers its keys. -/
def keepingStore : Store :=
  ((Store.new.define "keep" 1 keepingSource).2.define "echo" 1 "return KEYS").2

/-- The texts in a sequence. -/
def Value.texts : Value → List String
  | .sequence items => items.filterMap asText?
  | _ => []

/-- A metatable keeps the keys of a call from its script, which answers those of an earlier call. -/
theorem stale_arguments_of_body :
    let clock := Readings.frozen ⟨0, 0⟩
    ∃ first, keepingStore.begin ⟨0, 0⟩ "keep" [.text "old"] = .running first ∧
      ∃ answer ∈ (first.run (List.replicate 29 clock)).outcome?,
        ∃ second, answer.2.begin ⟨0, 0⟩ "echo" [.text "new"] = .running second ∧
          (¬ ∃ keys, (second.step clock).invocation.machine.heap.Published "KEYS" keys ["new"]) ∧
          (second.run (List.replicate 5 clock)).outcome?.map
            (fun answer => answer.1.toOption.map Value.texts) = some (some ["old"]) := by
  intro clock
  -- what the body of the second script finds under `KEYS` in the table of the global variables
  obtain ⟨first, hfirst, answer, hanswer, second, hsecond, hnil, hold⟩ :
      ∃ first, keepingStore.begin ⟨0, 0⟩ "keep" [.text "old"] = .running first ∧
        ∃ answer ∈ (first.run (List.replicate 29 clock)).outcome?,
          ∃ second, answer.2.begin ⟨0, 0⟩ "echo" [.text "new"] = .running second ∧
            ((second.step clock).invocation.machine.heap.rawGet Heap.globals
              (.ofString "KEYS")).isNil = true ∧
            (second.run (List.replicate 5 clock)).outcome?.map
              (fun answer => answer.1.toOption.map Value.texts) = some (some ["old"]) := by
    decide +kernel
  refine ⟨first, hfirst, answer, hanswer, second, hsecond, ?_, hold⟩
  rintro ⟨keys, hkeys⟩
  rw [hkeys.bound] at hnil
  cases hnil

end ScriptStore
