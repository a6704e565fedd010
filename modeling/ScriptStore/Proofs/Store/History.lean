import ScriptStore.Proofs.Custom.Steps

/-!
# Histories of a store

A store is used through operations, one after another. Each has an answer, and a history is what has
been asked and what has been answered.

* `KeyOperation`, `Operation` — the operations of a store, on its keys and on its scripts; a call of
  a custom command is one operation, however many steps it takes.
* `Operation.perform` — what an operation answers and what store it leaves.
* `Store.history?` — operations in a row; there is no history behind a call that does not come to
  its end. `Operation.performBy` and `Store.historyBy?` are the same with any compiler of sources.
* `Store.of_historyBy?` — **what holds of a store at its beginning and is kept by every operation
  holds after every history**.
* `KeyOperation.perform_withScripting` — operations on keys neither see scripts nor touch them.
* `Store.Unchanged`, `Store.call`, `Store.begin_cases` — a call of a custom command is refused,
  which changes nothing, or it runs.
* `Operation.performBy_keeps` — what becomes of the custom commands in an operation.
-/

namespace ScriptStore

variable {compile : Compiler} {s t after : Store} {op : Operation} {ops : List Operation}
  {events : List Event}

/-! ## Operations -/

/-- What an operation gives back. -/
inductive Given where
  | value (v : Value)
  | text (s : Option String)
  | integer (n : Int64)
  | count (n : Nat)
  | flag (b : Bool)
  | names (names : List String)
  | nothing

/-- An answer whose result is what an operation gives back. -/
def given {α : Type} (f : α → Given) (answer : Answer α) : Answer Given :=
  (answer.1.map f, answer.2)

/-- An operation on the keys of a store. -/
inductive KeyOperation where
  | command (name : String) (args : List Value)
  | dispatch (name : String) (args : List String)
  | get (key : String)
  | set (key : String) (value : Value)
  | del (keys : List String)
  | exist (keys : List String)
  | incr (key : String)
  | pexpire (key : String) (millis : Int64)
  | pttl (key : String)
  | zcard (key : String)
  | setClientName (name : String)
  | clientName
  | size
  | isEmpty

/-- The answer of an operation on keys, at its readings of the clocks. -/
def KeyOperation.perform (clock : Readings) (s : Store) : KeyOperation → Answer Given
  | .command name args => given .value (s.command clock name args)
  | .dispatch name args => given .value (s.dispatch clock name args)
  | .get key => given .text (s.get clock key)
  | .set key value => given (fun _ => .nothing) (s.set clock key value)
  | .del keys => given .integer (s.del clock keys)
  | .exist keys => given .integer (s.exist clock keys)
  | .incr key => given .integer (s.incr clock key)
  | .pexpire key millis => given .flag (s.pexpire clock key millis)
  | .pttl key => given .integer (s.pttl clock key)
  | .zcard key => given .integer (s.zcard clock key)
  | .setClientName name => given (fun _ => .nothing) (s.setClientName clock name)
  | .clientName => given .text (s.clientName clock)
  | .size => (.ok (.count (s.size (clock 0))), s)
  | .isEmpty => (.ok (.flag (s.isEmpty (clock 0))), s)

/-- An operation of a store. A call of a custom command takes steps, each with its readings of the
clocks. -/
inductive Operation where
  | onKeys (clock : Readings) (op : KeyOperation)
  | define (name : String) (keys : Nat) (source : String)
  | invoke (now : Moment) (name : String) (args : List Value) (clocks : List Readings)
  | definedCommands
  | isDisposed
  | dispose

namespace Operation

/-- Whether an operation is on keys, and not on scripts. -/
def isOnKeys : Operation → Bool
  | onKeys .. => true
  | _ => false

/-- The answer of an operation, with any compiler of sources. A call of a custom command that is not
over after its steps has none. -/
def performBy (compile : Compiler) (s : Store) : Operation → Option (Answer Given)
  | onKeys clock op => some (op.perform clock s)
  | define name keys source =>
    some (given (fun _ => .nothing) (s.defineBy compile name keys source))
  | invoke now name args clocks =>
    match s.begin now name args with
    | .refused e after => some (.error e, after)
    | .running r => (r.run clocks).outcome?.map (given .value)
  | definedCommands => some (.ok (.names s.definedCommands), s)
  | isDisposed => some (.ok (.flag s.isDisposed), s)
  | dispose => some (.ok .nothing, s.dispose)

def perform : Store → Operation → Option (Answer Given) := performBy Script.Chunk.ofSource

end Operation

/-! ## Histories -/

/-- An operation with its answer. -/
structure Event where
  operation : Operation
  answer : Except Error Given

/-- Operations in a row: what has happened, and the store after it. -/
def Store.historyBy? (compile : Compiler) (s : Store) :
    List Operation → Option (List Event × Store)
  | [] => some ([], s)
  | op :: ops =>
    (op.performBy compile s).bind fun answer =>
      (answer.2.historyBy? compile ops).map fun rest => (⟨op, answer.1⟩ :: rest.1, rest.2)

def Store.history? : Store → List Operation → Option (List Event × Store) :=
  historyBy? Script.Chunk.ofSource

namespace Store

theorem historyBy?_cons_eq_some_iff :
    s.historyBy? compile (op :: ops) = some (events, after) ↔
      ∃ answer t rest, op.performBy compile s = some (answer, t) ∧
        t.historyBy? compile ops = some (rest, after) ∧ events = ⟨op, answer⟩ :: rest := by
  simp only [historyBy?, Option.bind_eq_some_iff, Option.map_eq_some_iff]
  constructor
  · rintro ⟨⟨answer, t⟩, hperform, ⟨rest, _⟩, hrest, heq⟩
    cases heq
    exact ⟨answer, t, rest, hperform, hrest, rfl⟩
  · rintro ⟨answer, t, rest, hperform, hrest, rfl⟩
    exact ⟨(answer, t), hperform, (rest, after), hrest, rfl⟩

/-- **What holds of a store at its beginning and is kept by every operation holds after every
history.** It may speak of what has happened so far. -/
theorem of_historyBy? {holds : List Event → Store → Prop} (start : holds [] s)
    (step : ∀ past t op answer u, holds past t → op.performBy compile t = some (answer, u) →
      holds (past ++ [⟨op, answer⟩]) u)
    (run : s.historyBy? compile ops = some (events, after)) : holds events after := by
  suffices ∀ past, holds past s → holds (past ++ events) after from this [] start
  clear start
  induction ops generalizing s events with
  | nil =>
    intro past h
    cases run
    rwa [List.append_nil]
  | cons op ops ih =>
    intro past h
    obtain ⟨answer, t, rest, hperform, hrest, rfl⟩ := historyBy?_cons_eq_some_iff.mp run
    have hnext := ih hrest _ (step past s op answer t h hperform)
    rwa [List.append_assoc, List.singleton_append] at hnext

/-- The events of a history are its operations. -/
theorem operations_of_historyBy? (run : s.historyBy? compile ops = some (events, after)) :
    events.map Event.operation = ops := by
  induction ops generalizing s events with
  | nil =>
    cases run
    rfl
  | cons op ops ih =>
    obtain ⟨answer, t, rest, -, hrest, rfl⟩ := historyBy?_cons_eq_some_iff.mp run
    rw [List.map_cons, ih hrest]

end Store

/-! ## Operations on keys -/

/-- A store in another state of scripting. -/
def Store.withScripting (s : Store) (scripting : Scripting) : Store := { s with scripting }

theorem Store.options_command (clock : Readings) (s : Store) (name : String) (args : List Value) :
    (s.command clock name args).2.options = s.options := by
  unfold command
  cases Value.arguments args <;> rfl

theorem Store.command_withScripting (clock : Readings) (s : Store) (scripting : Scripting)
    (name : String) (args : List Value) :
    (s.withScripting scripting).command clock name args =
      ((s.command clock name args).1, (s.command clock name args).2.withScripting scripting) := by
  unfold command
  cases Value.arguments args <;> rfl

/-- **Operations on keys neither see scripts nor touch them.** -/
theorem KeyOperation.perform_withScripting (clock : Readings) (s : Store) (scripting : Scripting)
    (op : KeyOperation) :
    op.perform clock (s.withScripting scripting) =
      ((op.perform clock s).1, (op.perform clock s).2.withScripting scripting) := by
  cases op with
  | command name args => simp only [perform, given, Store.command_withScripting]
  | dispatch name args => rfl
  | size | isEmpty => rfl
  | get | set | del | exist | incr | pexpire | pttl | zcard | setClientName | clientName =>
    simp only [perform, given, Store.get, Store.set, Store.del, Store.exist, Store.incr,
      Store.pexpire, Store.pttl, Store.zcard, Store.setClientName, Store.clientName, Store.through,
      Store.command_withScripting]

/-- Operations on keys leave scripting as it is. -/
theorem KeyOperation.scripting_perform (clock : Readings) (s : Store) (op : KeyOperation) :
    (op.perform clock s).2.scripting = s.scripting := by
  have hsame := congrArg (fun answer => answer.2.scripting)
    (op.perform_withScripting clock s s.scripting)
  exact hsame

theorem KeyOperation.options_perform (clock : Readings) (s : Store) (op : KeyOperation) :
    (op.perform clock s).2.options = s.options := by
  cases op with
  | size | isEmpty | dispatch => rfl
  | _ => exact Store.options_command ..

/-! ## Operations on scripts -/

/-- The custom commands of a state of scripting. -/
def Scripting.definitions : Scripting → Std.TreeMap String Definition
  | ready env => env.definitions
  | _ => ∅

namespace Scripting

variable {scripting : Scripting} {env : Environment}

/-- There is an environment unless scripting has been disposed of, and its custom commands are those
that there have been. -/
theorem of_environment (h : scripting.environment = .ok env) :
    env.definitions = scripting.definitions ∧ scripting.isDisposed = false := by
  cases scripting with
  | unused => cases h; exact ⟨rfl, rfl⟩
  | ready env => cases h; exact ⟨rfl, rfl⟩
  | disposed => cases h

theorem environment_of_isDisposed (h : scripting.isDisposed = true) :
    scripting.environment = .error (.lifecycle .disposed) := by
  cases scripting with
  | disposed => rfl
  | _ => cases h

theorem exists_environment (h : scripting.isDisposed = false) :
    ∃ env, scripting.environment = .ok env := by
  cases scripting with
  | unused => exact ⟨.fresh, rfl⟩
  | ready env => exact ⟨env, rfl⟩
  | disposed => cases h

/-- The names of the custom commands are the keys under which they are found. -/
theorem names_eq (scripting : Scripting) : scripting.names = scripting.definitions.keys := by
  cases scripting <;> rfl

end Scripting

/-- A state of scripting goes over into another one that has the same custom commands. -/
structure Scripting.Keeps (scripting scripting' : Scripting) : Prop where
  definitions : scripting'.definitions = scripting.definitions
  isDisposed : scripting'.isDisposed = scripting.isDisposed

namespace Scripting.Keeps

variable {scripting scripting' : Scripting} {env : Environment}

theorem refl (scripting : Scripting) : scripting.Keeps scripting := ⟨rfl, rfl⟩

/-- An environment that is there, or is made, keeps the custom commands. -/
theorem ready {heap : Script.Heap} (h : scripting.environment = .ok env) :
    scripting.Keeps (.ready ⟨heap, env.definitions⟩) := by
  obtain ⟨hdefinitions, hready⟩ := of_environment h
  exact ⟨hdefinitions, hready.symm⟩

end Scripting.Keeps

/-! ## Calls -/

namespace Store

/-- A store in which nothing has happened, but that its environment may have been made. -/
def Unchanged (s after : Store) : Prop :=
  after = s ∨ s.scripting = .unused ∧ after = s.withScripting (.ready .fresh)

namespace Unchanged

theorem of_environment {env : Environment} (ready : s.scripting.environment = .ok env) :
    s.Unchanged (s.withScripting (.ready env)) := by
  obtain ⟨keyspace, scripting, options⟩ := s
  cases scripting with
  | unused =>
    cases ready
    exact .inr ⟨rfl, rfl⟩
  | ready _ =>
    cases ready
    exact .inl rfl
  | disposed => cases ready

theorem options (h : s.Unchanged after) : after.options = s.options := by
  rcases h with rfl | ⟨-, rfl⟩ <;> rfl

theorem keeps (h : s.Unchanged after) : s.scripting.Keeps after.scripting := by
  rcases h with rfl | ⟨hunused, rfl⟩
  · exact .refl _
  · rw [hunused]
    exact ⟨rfl, rfl⟩

end Unchanged

/-- The run of a custom command on its keys and its other arguments. -/
def call (s : Store) (env : Environment) (now : Moment) (d : Definition) (texts : List String) :
    Running where
  invocation := .start s.options now.nanos s.keyspace d.chunk env.heap
    (texts.take d.keys) (texts.drop d.keys)
  definitions := env.definitions

variable {now : Moment} {name : String} {args : List Value} {texts : List String} {e : Error}
  {env : Environment}

theorem begin_of_arguments (h : Value.arguments args = .error e) :
    s.begin now name args = .refused e s := by
  simp only [begin, h]

theorem begin_of_environment (given : Value.arguments args = .ok texts)
    (h : s.scripting.environment = .error e) : s.begin now name args = .refused e s := by
  simp only [begin, given, h]

theorem begin_of_find (given : Value.arguments args = .ok texts)
    (ready : s.scripting.environment = .ok env) (h : Scripting.find env name texts = .error e) :
    s.begin now name args = .refused e (s.withScripting (.ready env)) := by
  simp only [begin, given, ready, h]
  rfl

/-- **A call is refused, which changes nothing, or it runs a custom command.** -/
theorem begin_cases (s : Store) (now : Moment) (name : String) (args : List Value) :
    (∃ e after, s.begin now name args = .refused e after ∧ s.Unchanged after) ∨
      ∃ env d texts, s.scripting.environment = .ok env ∧
        s.begin now name args = .running (s.call env now d texts) := by
  cases given : Value.arguments args with
  | error e => exact .inl ⟨e, s, begin_of_arguments given, .inl rfl⟩
  | ok texts =>
    cases ready : s.scripting.environment with
    | error e => exact .inl ⟨e, s, begin_of_environment given ready, .inl rfl⟩
    | ok env =>
      cases found : Scripting.find env name texts with
      | error e => exact .inl ⟨e, _, begin_of_find given ready found, .of_environment ready⟩
      | ok d => exact .inr ⟨env, d, texts, rfl, begin_eq ready given found now⟩

/-- A call that is over leaves its keyspace and its heap. -/
theorem of_outcome? {r : Running} {clocks : List Readings} {answered : Answer Value}
    (h : (r.run clocks).outcome? = some answered) :
    (r.invocation.run clocks).result? = some answered.1 ∧
      answered.2 = ⟨(r.invocation.run clocks).keyspace,
        .ready ⟨(r.invocation.run clocks).machine.heap, r.definitions⟩,
        r.invocation.options⟩ := by
  rw [Running.run_eq, Running.outcome?] at h
  obtain ⟨result, hresult, rfl⟩ := Option.map_eq_some_iff.mp h
  refine ⟨hresult, ?_⟩
  rw [← (r.invocation.options_run clocks).1]

end Store

/-! ## Operations -/

/-- A call of a custom command that is over has changed nothing, or its script has left its keyspace
and its heap. -/
theorem Operation.after_invoke {answer : Except Error Given} {now : Moment} {name : String}
    {args : List Value} {clocks : List Readings}
    (h : (invoke now name args clocks).performBy compile s = some (answer, t)) :
    s.Unchanged t ∨ ∃ env d texts, s.scripting.environment = .ok env ∧
      let i := (s.call env now d texts).invocation.run clocks
      t = ⟨i.keyspace, .ready ⟨i.machine.heap, env.definitions⟩, s.options⟩ := by
  rcases s.begin_cases now name args with ⟨e, after, hbegin, hunchanged⟩ |
    ⟨env, d, texts, hready, hbegin⟩
  · simp only [performBy, hbegin] at h
    cases h
    exact .inl hunchanged
  · simp only [performBy, hbegin] at h
    obtain ⟨answered, houtcome, hgiven⟩ := Option.map_eq_some_iff.mp h
    cases hgiven
    exact .inr ⟨env, d, texts, hready, (Store.of_outcome? houtcome).2⟩

/-- **What becomes of the custom commands in an operation**: only definitions and disposal touch
them. -/
theorem Operation.performBy_keeps {answer : Except Error Given}
    (h : op.performBy compile s = some (answer, t)) :
    (∃ name keys source, op = .define name keys source ∧
        t.scripting = (s.scripting.defineBy compile name keys source).2 ∧
        (answer.isOk = (s.scripting.defineBy compile name keys source).1.isOk)) ∨
      (op = .dispose ∧ t.scripting = .disposed) ∨
      (∀ name keys source, op ≠ .define name keys source) ∧ op ≠ .dispose ∧
        s.scripting.Keeps t.scripting := by
  cases op with
  | onKeys clock op =>
    have ht : t = (op.perform clock s).2 := congrArg Prod.snd (Option.some.inj h).symm
    refine .inr (.inr ⟨nofun, nofun, ?_⟩)
    rw [ht, KeyOperation.scripting_perform]
    exact .refl _
  | define name keys source =>
    cases h
    refine .inl ⟨name, keys, source, rfl, rfl, ?_⟩
    show ((s.scripting.defineBy compile name keys source).1.map _).isOk = _
    cases (s.scripting.defineBy compile name keys source).1 <;> rfl
  | invoke now name args clocks =>
    refine .inr (.inr ⟨nofun, nofun, ?_⟩)
    rcases after_invoke h with hunchanged | ⟨env, d, texts, hready, rfl⟩
    · exact hunchanged.keeps
    · exact .ready hready
  | definedCommands | isDisposed =>
    cases h
    exact .inr (.inr ⟨nofun, nofun, .refl _⟩)
  | dispose =>
    cases h
    exact .inr (.inl ⟨rfl, rfl⟩)

/-! ## Options -/

/-- No operation changes how scripts run. -/
theorem Operation.options_of_performBy {answer : Except Error Given}
    (h : op.performBy compile s = some (answer, t)) : t.options = s.options := by
  cases op with
  | onKeys clock op =>
    have ht : t = (op.perform clock s).2 := congrArg Prod.snd (Option.some.inj h).symm
    rw [ht, KeyOperation.options_perform]
  | define name keys source =>
    cases h
    rfl
  | invoke now name args clocks =>
    rcases after_invoke h with hunchanged | ⟨env, d, texts, -, rfl⟩
    · exact hunchanged.options
    · rfl
  | definedCommands | isDisposed | dispose =>
    cases h
    rfl

/-- The options are those that the store was made with, after every history. -/
theorem Store.options_of_historyBy? (run : s.historyBy? compile ops = some (events, after)) :
    after.options = s.options := by
  let same : List Event → Store → Prop := fun _ t => t.options = s.options
  have hstep (past : List Event) (t : Store) (op : Operation) (answer : Except Error Given)
      (u : Store) (h : same past t) (hperform : op.performBy compile t = some (answer, u)) :
      same (past ++ [⟨op, answer⟩]) u := (Operation.options_of_performBy hperform).trans h
  have hsame : same events after := of_historyBy? rfl hstep run
  exact hsame

end ScriptStore
