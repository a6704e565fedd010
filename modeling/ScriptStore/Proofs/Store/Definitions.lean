import ScriptStore.Proofs.Store.History
import ScriptStore.Proofs.Text.Order

/-!
# The custom commands of a history

A history tells which custom commands a store has: each name that was ever defined, with what the
last of its successful definitions asked for. A definition that fails, a call, and whatever is done
to keys are as nothing.

* `latest?` — what the last successful definition of a name has asked for.
* `Store.Recorded` — a store is what a history says; `Store.recorded_of_historyBy?` proves it.
* `Begun.started` — the run that a call comes to, or why it is refused.
* `Recorded.begin_of_latest`, `Recorded.begin_of_undefined` — what a call comes to.
* `last_successful_definition_wins` — **the names, in order, are those that have been defined, a
  call runs what was defined last, a failed definition changes nothing, and a definition changes
  nothing for other names**.
-/

namespace ScriptStore

variable {compile : Compiler} {options : Options} {s t : Store} {ops : List Operation}
  {events past : List Event} {op : Operation} {answer : Except Error Given}
  {name other source : String} {keys : Nat} {scripting : Scripting} {env : Environment}

/-! ## What a history says -/

/-- The keys and the source that an event defines a name with, if it is a definition of that name
and succeeds. -/
def Event.definition? (name : String) (event : Event) : Option (Nat × String) :=
  match event.operation with
  | .define defined keys source =>
    if defined = name ∧ event.answer.isOk then some (keys, source) else none
  | _ => none

/-- The keys and the source of the last successful definition of a name. -/
def latest? (name : String) (events : List Event) : Option (Nat × String) :=
  events.reverse.findSome? (Event.definition? name)

theorem Event.definition?_eq_some_iff {event : Event} {asked : Nat × String} :
    event.definition? name = some asked ↔
      event.operation = .define name asked.1 asked.2 ∧ event.answer.isOk := by
  unfold definition?
  split
  · rename_i defined keys source hop
    simp only [Option.ite_none_right_eq_some, Option.some.injEq, hop, Operation.define.injEq]
    constructor
    · rintro ⟨⟨rfl, hok⟩, rfl⟩
      exact ⟨⟨rfl, rfl, rfl⟩, hok⟩
    · rintro ⟨⟨rfl, rfl, rfl⟩, hok⟩
      exact ⟨⟨rfl, hok⟩, rfl⟩
  · rename_i hop
    constructor
    · intro h
      cases h
    · rintro ⟨hdefine, -⟩
      exact (hop _ _ _ hdefine).elim

/-- One more event counts if it is a successful definition of the name. -/
theorem latest?_snoc (name : String) (past : List Event) (event : Event) :
    latest? name (past ++ [event]) = (event.definition? name).or (latest? name past) := by
  simp only [latest?, List.reverse_append, List.reverse_singleton, List.singleton_append,
    List.findSome?_cons]
  cases event.definition? name <;> rfl

theorem isSome_latest?_iff :
    (latest? name events).isSome ↔
      ∃ keys source given, (⟨.define name keys source, .ok given⟩ : Event) ∈ events := by
  rw [latest?, List.findSome?_isSome_iff]
  constructor
  · rintro ⟨⟨op, answer⟩, hmem, hsome⟩
    obtain ⟨asked, hasked⟩ := Option.isSome_iff_exists.mp hsome
    obtain ⟨rfl, hok⟩ := Event.definition?_eq_some_iff.mp hasked
    cases answer with
    | error e => cases hok
    | ok given => exact ⟨asked.1, asked.2, given, List.mem_reverse.mp hmem⟩
  · rintro ⟨keys, source, given, hmem⟩
    have hasked : (⟨.define name keys source, .ok given⟩ : Event).definition? name =
        some (keys, source) := Event.definition?_eq_some_iff.mpr ⟨rfl, rfl⟩
    exact ⟨_, List.mem_reverse.mpr hmem, Option.isSome_of_eq_some hasked⟩

/-! ## Definitions -/

/-- A custom command is what a definition has asked for. -/
def Definition.IsOf (compile : Compiler) (d : Definition) (asked : Nat × String) : Prop :=
  d.keys = asked.1 ∧ compile asked.2 = .ok d.chunk

namespace Scripting

theorem defineBy_of_environment {e : Error} (h : scripting.environment = .error e) (name : String)
    (keys : Nat) (source : String) :
    scripting.defineBy compile name keys source = (.error e, scripting) := by
  simp only [defineBy, h]

theorem defineBy_of_fault {fault : Script.SourceFault} (ready : scripting.environment = .ok env)
    (h : compile source = .error fault) (name : String) (keys : Nat) :
    scripting.defineBy compile name keys source =
      (.error (.script (.doesNotCompile name (Utf8.decode fault.message))), .ready env) := by
  simp only [defineBy, ready, h]

theorem defineBy_of_chunk {chunk : Script.Chunk} (ready : scripting.environment = .ok env)
    (h : compile source = .ok chunk) (name : String) (keys : Nat) :
    scripting.defineBy compile name keys source =
      (.ok (), .ready { env with definitions := env.definitions.insert name ⟨keys, chunk⟩ }) := by
  simp only [defineBy, ready, h]

theorem find_of_undefined (found : env.definitions[name]? = none) (texts : List String) :
    find env name texts = .error (.command (.unknownCustom name)) := by
  simp only [find, found]

theorem find_of_definition {d : Definition} (found : env.definitions[name]? = some d)
    (texts : List String) :
    find env name texts =
      if texts.length < d.keys then
        .error (.invalidArgument (.tooFewArguments name d.keys texts.length))
      else .ok d := by
  simp only [find, found]

end Scripting

namespace Store

theorem defineBy_of_environment {e : Error} (h : s.scripting.environment = .error e) (name : String)
    (keys : Nat) (source : String) : s.defineBy compile name keys source = (.error e, s) := by
  simp only [defineBy, Scripting.defineBy_of_environment h]

theorem defineBy_of_fault {fault : Script.SourceFault} (ready : s.scripting.environment = .ok env)
    (h : compile source = .error fault) (name : String) (keys : Nat) :
    s.defineBy compile name keys source =
      (.error (.script (.doesNotCompile name (Utf8.decode fault.message))),
        s.withScripting (.ready env)) := by
  simp only [defineBy, Scripting.defineBy_of_fault ready h]
  rfl

theorem defineBy_of_chunk {chunk : Script.Chunk} (ready : s.scripting.environment = .ok env)
    (h : compile source = .ok chunk) (name : String) (keys : Nat) :
    s.defineBy compile name keys source = (.ok (), s.withScripting
      (.ready { env with definitions := env.definitions.insert name ⟨keys, chunk⟩ })) := by
  simp only [defineBy, Scripting.defineBy_of_chunk ready h]
  rfl

end Store

/-! ## Stores and histories -/

/-- A store is what a history says: it is disposed of if that has happened, and if not, its custom
commands are those of the last definitions. -/
structure Store.Recorded (compile : Compiler) (events : List Event) (s : Store) : Prop where
  disposed : s.isDisposed = true ↔ ∃ event ∈ events, event.operation = .dispose
  definitions : s.isDisposed = false → ∀ name,
    Option.Rel (Definition.IsOf compile) s.scripting.definitions[name]? (latest? name events)

namespace Store

theorem recorded_build (compile : Compiler) (options : Options) :
    (build options).Recorded compile [] where
  disposed := by simp [build, isDisposed, Scripting.isDisposed]
  definitions := by
    intro _ name
    have hnone : (build options).scripting.definitions[name]? = none := by
      simp [build, Scripting.definitions]
    rw [hnone]
    exact .none

/-- An event that is neither a successful definition nor disposal, and keeps the custom commands. -/
theorem Recorded.keep (recorded : t.Recorded compile past) (keeps : t.scripting.Keeps s.scripting)
    (undefined : ∀ name, (⟨op, answer⟩ : Event).definition? name = none) (other : op ≠ .dispose) :
    s.Recorded compile (past ++ [⟨op, answer⟩]) where
  disposed := by
    rw [isDisposed, keeps.isDisposed]
    have hpast := recorded.disposed
    rw [isDisposed] at hpast
    rw [hpast]
    simp [other]
  definitions := by
    intro hready name
    rw [isDisposed, keeps.isDisposed] at hready
    rw [keeps.definitions, latest?_snoc, undefined, Option.none_or]
    exact recorded.definitions hready name

/-- A definition is recorded if it succeeds. -/
theorem Recorded.define (recorded : t.Recorded compile past)
    (after : s.scripting = (t.scripting.defineBy compile name keys source).2)
    (answered : answer.isOk = (t.scripting.defineBy compile name keys source).1.isOk) :
    s.Recorded compile (past ++ [⟨.define name keys source, answer⟩]) := by
  have hfails (h : answer.isOk = false) (other : String) :
      (⟨.define name keys source, answer⟩ : Event).definition? other = none := by
    simp [Event.definition?, h]
  cases ready : t.scripting.environment with
  | error e =>
    rw [Scripting.defineBy_of_environment ready] at after answered
    refine recorded.keep ?_ (hfails answered) nofun
    rw [after]
    exact .refl _
  | ok env =>
    cases hsource : compile source with
    | error fault =>
      rw [Scripting.defineBy_of_fault ready hsource] at after answered
      refine recorded.keep ?_ (hfails answered) nofun
      rw [after]
      exact .ready ready
    | ok chunk =>
      rw [Scripting.defineBy_of_chunk ready hsource] at after answered
      obtain ⟨hdefinitions, hready⟩ := Scripting.of_environment ready
      constructor
      · have hpast := recorded.disposed
        rw [isDisposed, hready] at hpast
        rw [isDisposed, after]
        simpa [Scripting.isDisposed] using hpast
      · intro _ found
        have hfound : s.scripting.definitions[found]? =
            if name = found then some ⟨keys, chunk⟩ else env.definitions[found]? := by
          rw [after, Scripting.definitions, Std.TreeMap.getElem?_insert]
          simp only [Std.LawfulEqCmp.compare_eq_iff_eq]
        rw [hfound, latest?_snoc, Event.definition?, answered]
        by_cases hname : name = found
        · simp only [hname, if_true]
          exact .some ⟨rfl, hsource⟩
        · simp only [hname, if_false, false_and, Option.none_or]
          rw [hdefinitions]
          exact recorded.definitions hready found

/-- **A store is what its history says.** -/
theorem recorded_of_historyBy? (run : (build options).historyBy? compile ops = some (events, s)) :
    s.Recorded compile events := by
  refine of_historyBy? (recorded_build compile options)
    (fun past t op answer u recorded hperform => ?_) run
  rcases Operation.performBy_keeps hperform with ⟨name, keys, source, rfl, hafter, hanswered⟩ |
    ⟨rfl, hdisposed⟩ | ⟨hdefine, hdispose, hkeeps⟩
  · exact recorded.define hafter hanswered
  · constructor
    · simp [isDisposed, hdisposed, Scripting.isDisposed]
    · intro hready
      rw [isDisposed, hdisposed] at hready
      cases hready
  · refine recorded.keep hkeeps (fun name => ?_) hdispose
    rw [Option.eq_none_iff_forall_ne_some]
    intro asked hasked
    exact hdefine _ _ _ (Event.definition?_eq_some_iff.mp hasked).1

/-- A store is disposed of if and only if that has happened. -/
theorem isDisposed_iff (run : (build options).historyBy? compile ops = some (events, s)) :
    s.isDisposed = true ↔ .dispose ∈ ops := by
  rw [(recorded_of_historyBy? run).disposed, ← operations_of_historyBy? run, List.mem_map]

/-! ## Calls -/

/-- The run that a call comes to, or why it is refused. -/
def Begun.started : Begun → Except Error Running
  | .refused e _ => .error e
  | .running r => .ok r

/-- Whether a call is refused, and what it runs, depends on the store through little: the
environment, and of the custom commands the one that is called. -/
theorem started_begin (s : Store) (now : Moment) (name : String) (args : List Value) :
    (s.begin now name args).started =
      (Value.arguments args).bind fun texts => s.scripting.environment.bind fun env =>
        (Scripting.find env name texts).map fun d => s.call env now d texts := by
  cases given : Value.arguments args with
  | error e =>
    rw [begin_of_arguments given]
    rfl
  | ok texts =>
    cases ready : s.scripting.environment with
    | error e =>
      rw [begin_of_environment given ready]
      rfl
    | ok env =>
      cases found : Scripting.find env name texts with
      | error e =>
        rw [begin_of_find given ready found]
        simp only [Except.bind, found]
        rfl
      | ok d =>
        rw [begin_eq ready given found]
        simp only [Except.bind, found]
        rfl

/-- To make the environment makes no difference to calls. -/
theorem started_begin_ready (ready : s.scripting.environment = .ok env) (now : Moment)
    (name : String) (args : List Value) :
    ((s.withScripting (.ready env)).begin now name args).started =
      (s.begin now name args).started := by
  rw [started_begin, started_begin, ready]
  rfl

/-- A store that has custom commands has its environment. -/
theorem Unchanged.eq_of_defined {after : Store} (h : s.Unchanged after)
    (defined : s.definedCommands ≠ []) : after = s := by
  rcases h with rfl | ⟨hunused, -⟩
  · rfl
  · rw [definedCommands, hunused] at defined
    exact (defined rfl).elim

/-- A definition changes nothing for another name. -/
theorem invocation_begin_defineBy (compile : Compiler) (s : Store) (other_ne : other ≠ name)
    (keys : Nat) (source : String) (now : Moment) (args : List Value) :
    ((s.defineBy compile name keys source).2.begin now other args).started.map Running.invocation =
      (s.begin now other args).started.map Running.invocation := by
  cases ready : s.scripting.environment with
  | error e => rw [defineBy_of_environment ready]
  | ok env =>
    cases hsource : compile source with
    | error fault => rw [defineBy_of_fault ready hsource, started_begin_ready ready]
    | ok chunk =>
      have hfind (texts : List String) : Scripting.find
          { env with definitions := env.definitions.insert name ⟨keys, chunk⟩ } other texts =
          Scripting.find env other texts := by
        simp [Scripting.find, Std.TreeMap.getElem?_insert, other_ne.symm]
      rw [defineBy_of_chunk ready hsource, started_begin, started_begin, ready]
      cases Value.arguments args with
      | error e => rfl
      | ok texts =>
        simp only [withScripting, Except.bind, Scripting.environment, hfind]
        cases Scripting.find env other texts <;> rfl

/-- The names of the custom commands are in the order of their bytes, without repetition. -/
theorem pairwise_definedCommands (s : Store) :
    s.definedCommands.Pairwise fun a b => Utf8.encode a < Utf8.encode b := by
  rw [definedCommands, Scripting.names_eq]
  refine Std.TreeMap.ordered_keys.imp fun {a b} h => Utf8.encode_lt ?_
  exact compareOfLessAndEq_eq_lt.mp h

namespace Recorded

variable {args : List Value} {texts : List String} {asked : Nat × String}

/-- What has been defined last is there. -/
theorem exists_definition (recorded : s.Recorded compile events) (ready : s.isDisposed = false)
    (latest : latest? name events = some asked) :
    ∃ d, s.scripting.definitions[name]? = some d ∧ d.IsOf compile asked := by
  have hrecorded := recorded.definitions ready name
  rw [latest] at hrecorded
  generalize s.scripting.definitions[name]? = found at hrecorded
  cases hrecorded with
  | some hof => exact ⟨_, rfl, hof⟩

/-- What has not been defined is not there. -/
theorem definition_eq_none (recorded : s.Recorded compile events) (ready : s.isDisposed = false)
    (latest : latest? name events = none) : s.scripting.definitions[name]? = none := by
  have hrecorded := recorded.definitions ready name
  rw [latest] at hrecorded
  generalize s.scripting.definitions[name]? = found at hrecorded
  cases hrecorded
  rfl

/-- The custom commands are the names that have been defined. -/
theorem mem_definedCommands_iff (recorded : s.Recorded compile events)
    (ready : s.isDisposed = false) :
    name ∈ s.definedCommands ↔ (latest? name events).isSome := by
  rw [definedCommands, Scripting.names_eq, Std.TreeMap.mem_keys,
    Std.TreeMap.mem_iff_isSome_getElem?]
  cases latest : latest? name events with
  | none => simp [recorded.definition_eq_none ready latest]
  | some asked =>
    obtain ⟨d, hfound, -⟩ := recorded.exists_definition ready latest
    rw [hfound]
    rfl

/-- A call of a name that has not been defined is refused. -/
theorem begin_of_undefined (recorded : s.Recorded compile events)
    (ready : s.scripting.environment = .ok env) (latest : latest? name events = none)
    (given : Value.arguments args = .ok texts) (now : Moment) :
    ∃ after, s.begin now name args = .refused (.command (.unknownCustom name)) after ∧
      s.Unchanged after := by
  obtain ⟨hdefinitions, hready⟩ := Scripting.of_environment ready
  have hfound := recorded.definition_eq_none hready latest
  rw [← hdefinitions] at hfound
  have hrefused := Scripting.find_of_undefined hfound texts
  exact ⟨_, begin_of_find given ready hrefused, .of_environment ready⟩

/-- A call of a name that has been defined runs what was defined last, if there are enough arguments
for its keys. -/
theorem begin_of_latest (recorded : s.Recorded compile events)
    (ready : s.scripting.environment = .ok env) (latest : latest? name events = some (keys, source)) :
    ∃ chunk, compile source = .ok chunk ∧
      ∀ now args texts, Value.arguments args = .ok texts →
        (texts.length < keys → ∃ after,
          s.begin now name args =
              .refused (.invalidArgument (.tooFewArguments name keys texts.length)) after ∧
            s.Unchanged after) ∧
        (keys ≤ texts.length →
          s.begin now name args = .running (s.call env now ⟨keys, chunk⟩ texts)) := by
  obtain ⟨hdefinitions, hready⟩ := Scripting.of_environment ready
  obtain ⟨⟨_, chunk⟩, hfound, hkeys, hchunk⟩ := recorded.exists_definition hready latest
  cases hkeys
  rw [← hdefinitions] at hfound
  refine ⟨chunk, hchunk, fun now args texts given => ?_⟩
  have hfind := Scripting.find_of_definition hfound texts
  constructor
  · intro few
    rw [if_pos few] at hfind
    exact ⟨_, begin_of_find given ready hfind, .of_environment ready⟩
  · intro enough
    rw [if_neg (Nat.not_lt.mpr enough)] at hfind
    exact begin_eq ready given hfind now

end Recorded

end Store

/-- **The last successful definition wins.** After every history without disposal, the custom
commands are, in the order of their bytes, exactly the names that have been defined with success. A
call of such a name runs the source that was defined last, with the number of keys that was given
last, and a call of any other name is refused. A definition succeeds if and only if its source is a
program to the compiler; if it is none, the definition changes neither the names, nor the keyspace,
nor what any call runs. And a definition never changes what is run under another name. -/
theorem last_successful_definition_wins
    (run : (Store.build options).historyBy? compile ops = some (events, s)) (kept : .dispose ∉ ops) :
    s.definedCommands.Pairwise (fun a b => Utf8.encode a < Utf8.encode b) ∧
    (∀ name, name ∈ s.definedCommands ↔
      ∃ keys source given, (⟨.define name keys source, .ok given⟩ : Event) ∈ events) ∧
    (∀ name ∈ s.definedCommands, ∃ keys source chunk env,
      latest? name events = some (keys, source) ∧ compile source = .ok chunk ∧
      s.scripting.environment = .ok env ∧
      ∀ now args texts, Value.arguments args = .ok texts →
        (s.begin now name args).started =
          if texts.length < keys then
            .error (.invalidArgument (.tooFewArguments name keys texts.length))
          else .ok (s.call env now ⟨keys, chunk⟩ texts)) ∧
    (∀ name, name ∉ s.definedCommands → ∀ now args texts, Value.arguments args = .ok texts →
      (s.begin now name args).started = .error (.command (.unknownCustom name))) ∧
    (∀ name keys source chunk, compile source = .ok chunk →
      (s.defineBy compile name keys source).1 = .ok ()) ∧
    (∀ name keys source fault, compile source = .error fault →
      ∃ after, s.defineBy compile name keys source =
          (.error (.script (.doesNotCompile name (Utf8.decode fault.message))), after) ∧
        after.definedCommands = s.definedCommands ∧ after.keyspace = s.keyspace ∧
        (s.definedCommands ≠ [] → after = s) ∧
        ∀ now called args,
          (after.begin now called args).started = (s.begin now called args).started) ∧
    (∀ name keys source other, other ≠ name → ∀ now args,
      ((s.defineBy compile name keys source).2.begin now other args).started.map Running.invocation =
        (s.begin now other args).started.map Running.invocation) := by
  have hrecorded := Store.recorded_of_historyBy? run
  have hready : s.isDisposed = false := by
    rwa [← Bool.not_eq_true, Store.isDisposed_iff run]
  obtain ⟨env, henv⟩ := Scripting.exists_environment hready
  obtain ⟨hdefinitions, -⟩ := Scripting.of_environment henv
  refine ⟨s.pairwise_definedCommands, fun name => ?_, fun name hname => ?_,
    fun name hname now args texts hargs => ?_, fun name keys source chunk hsource => ?_,
    fun name keys source fault hsource => ?_,
    fun name keys source other hother => s.invocation_begin_defineBy compile hother keys source⟩
  · rw [hrecorded.mem_definedCommands_iff hready, isSome_latest?_iff]
  · rw [hrecorded.mem_definedCommands_iff hready, Option.isSome_iff_exists] at hname
    obtain ⟨⟨keys, source⟩, hlatest⟩ := hname
    obtain ⟨chunk, hchunk, hcall⟩ := hrecorded.begin_of_latest henv hlatest
    refine ⟨keys, source, chunk, env, hlatest, hchunk, henv, fun now args texts hargs => ?_⟩
    obtain ⟨hfew, henough⟩ := hcall now args texts hargs
    split
    · rename_i few
      obtain ⟨after, hbegin, -⟩ := hfew few
      rw [hbegin]
      rfl
    · rename_i enough
      rw [henough (Nat.not_lt.mp enough)]
      rfl
  · rw [hrecorded.mem_definedCommands_iff hready, Option.not_isSome_iff_eq_none] at hname
    obtain ⟨after, hbegin, -⟩ := hrecorded.begin_of_undefined henv hname hargs now
    rw [hbegin]
    rfl
  · rw [Store.defineBy_of_chunk henv hsource]
  · refine ⟨s.withScripting (.ready env), Store.defineBy_of_fault henv hsource name keys, ?_, rfl,
      (Store.Unchanged.of_environment henv).eq_of_defined, Store.started_begin_ready henv⟩
    rw [Store.definedCommands, Store.definedCommands, Scripting.names_eq, Scripting.names_eq,
      ← hdefinitions]
    rfl

/-- Two definitions of a name with a call in between, one definition of another name, and one that
fails. -/
def redefinitions : List Operation :=
  [.define "greet" 0 "return 'hello'", .define "echo" 1 "return KEYS[1]",
    .invoke ⟨0, 0⟩ "greet" [] (List.replicate 5 (.frozen ⟨0, 0⟩)),
    .define "greet" 1 "return ARGV[1]", .define "greet" 2 "return return"]

/-- The second definition of the name is the last that succeeds, and is what a call runs. -/
theorem second_definition_wins :
    ∃ events s, (Store.build .default).history? redefinitions = some (events, s) ∧
      s.definedCommands = ["echo", "greet"] ∧
      latest? "greet" events = some (1, "return ARGV[1]") ∧
      ∃ chunk env, Script.Chunk.ofSource "return ARGV[1]" = .ok chunk ∧ ∀ now,
        (s.begin now "greet" [.text "k", .text "v"]).started =
          .ok (s.call env now ⟨1, chunk⟩ ["k", "v"]) := by
  obtain ⟨⟨events, s⟩, hrun, hnames, hlatest⟩ :
      ∃ r ∈ (Store.build .default).history? redefinitions,
        r.2.definedCommands = ["echo", "greet"] ∧
        latest? "greet" r.1 = some (1, "return ARGV[1]") := by
    decide +kernel
  have hkept : Operation.dispose ∉ redefinitions := by simp [redefinitions]
  obtain ⟨-, -, hlast, -⟩ := last_successful_definition_wins hrun hkept
  obtain ⟨keys, source, chunk, env, hsame, hchunk, -, hcall⟩ := hlast "greet" (by rw [hnames]; simp)
  cases hsame.symm.trans hlatest
  refine ⟨events, s, hrun, hnames, hlatest, chunk, env, hchunk, fun now => ?_⟩
  have htexts : Value.arguments [.text "k", .text "v"] = .ok ["k", "v"] := rfl
  rw [hcall now _ _ htexts]
  rfl

end ScriptStore
