import Mathlib
import ScriptStore.Proofs.Custom.Growth
import ScriptStore.Proofs.Custom.Steps
import ScriptStore.Proofs.Script.Failures
import ScriptStore.Proofs.Store.Refusals

/-!
# The two ways to the store

One way to the store raises the failure of a command, and the other answers a table with its message.
In all else they agree, and what is raised keeps its message wherever the script takes it.

* `Invocation.asking`, `Invocation.through` — a script that waits for the store, and what becomes of
  it; `Invocation.step_calling` — it waits once it has called one of the two functions.
* `Invocation.Agree` — what the two ways have in common, and in what they differ.
* `Invocation.Reached` — the points of calls of custom commands.
* `Invocation.Means` — what a failure comes to, if it is raised at some later point: outside of
  protected calls the script ends with its message, and a protected call gives it to the script, which
  may raise it again.
* `ways_to_store_agree` — **the two ways agree, and what one of them raises means what the other
  answers**.
-/

namespace ScriptStore

open Script

variable {i : Invocation} {clock : Readings} {clocks : List Readings} {args : List Val}
  {access : StoreAccess} {line : Option Nat} {id : Nat}

/-! ## Asking -/

/-- The function that is a way to the store. -/
def Script.StoreAccess.function : StoreAccess → Builtin
  | .strict => .storeCall
  | .lenient => .storeTry

namespace Invocation

/-- A script that calls a way to the store. -/
def calling (i : Invocation) (access : StoreAccess) (args : List Val) (line : Option Nat) :
    Invocation :=
  { i with machine := { i.machine with control := .call (.builtin access.function) args line } }

/-- A script that waits for the store. -/
def asking (i : Invocation) (access : StoreAccess) (args : List Val) : Invocation :=
  { i with machine := { i.machine with control := .asks access args } }

/-- What becomes of a script that has gone to the store. -/
def through (i : Invocation) (access : StoreAccess) (clock : Readings) (args : List Val) :
    Invocation :=
  (i.asking access args).step clock

/-- A script that calls a way to the store waits for it, unless a look at the clocks is due. -/
theorem step_calling (unchecked : i.checksTime = false) (access : StoreAccess) (args : List Val)
    (line : Option Nat) (clock : Readings) :
    (i.calling access args line).step clock = i.asking access args := by
  have hunchecked : (i.calling access args line).checksTime = false := unchecked
  rw [step_of_runs rfl hunchecked]
  cases access <;> rfl

theorem through_eq (i : Invocation) (access : StoreAccess) (clock : Readings) (args : List Val) :
    i.through access clock args = { i with
      machine := (i.asking access args).machine.answer access
        (Custom.ask clock i.keyspace access args).1
      keyspace := (Custom.ask clock i.keyspace access args).2 } :=
  step_of_asks rfl clock

end Invocation

/-- Which way a script takes does not decide for what it asks, unless it asks for nothing at all. -/
theorem Custom.commandOf_lenient (some : args ≠ []) :
    commandOf .lenient args = commandOf .strict args := by
  cases args with
  | nil => exact (some rfl).elim
  | cons name rest => rfl

/-- A string or a number. -/
def Script.Val.IsTextual (v : Val) : Prop := v.typeName = "string" ∨ v.typeName = "number"

instance (v : Val) : Decidable v.IsTextual := inferInstanceAs (Decidable (_ ∨ _))

theorem Script.Val.isTextual_iff (v : Val) : v.IsTextual ↔ ∃ text, v.toArgument = .ok text := by
  cases v <;> simp [IsTextual, typeName, toArgument]

/-- What a script asks for is a command exactly if all arguments are strings and numbers, and then
their texts are its name and its arguments. -/
theorem Custom.commandOf_eq_ok_iff {name : String} {texts : List String} :
    commandOf access args = .ok (name, texts) ↔
      args.map Val.toArgument = (name :: texts).map .ok := by
  cases args with
  | nil => simp [commandOf]
  | cons v rest =>
    rw [commandOf, List.map_cons, List.map_cons]
    cases hv : v.toArgument with
    | error e => simp [bind, Except.bind]
    | ok text =>
      cases hrest : rest.mapM Val.toArgument with
      | error e =>
        have hnot : ¬ rest.map Val.toArgument = texts.map .ok := fun h => by
          rw [← mapM_eq_ok_iff, hrest] at h
          cases h
        simp [bind, Except.bind, hnot]
      | ok given =>
        have hmap := mapM_eq_ok_iff.mp hrest
        have hinj : given.map (Except.ok (ε := CommandFault)) = texts.map .ok ↔ given = texts :=
          List.map_inj_right fun _ _ => Except.ok.inj
        simp [bind, Except.bind, pure, Except.pure, hmap, hinj]

/-- Strings and numbers have texts. -/
theorem Script.Val.exists_texts (textual : ∀ v ∈ args, v.IsTextual) :
    ∃ texts : List String, args.map Val.toArgument = texts.map .ok := by
  induction args with
  | nil => exact ⟨[], rfl⟩
  | cons v rest ih =>
    obtain ⟨hv, hrest⟩ := List.forall_mem_cons.mp textual
    obtain ⟨text, htext⟩ := v.isTextual_iff.mp hv
    obtain ⟨texts, htexts⟩ := ih hrest
    exact ⟨text :: texts, by rw [List.map_cons, List.map_cons, htext, htexts]⟩

/-- Nothing else has. -/
theorem Script.Val.isTextual_of_map {texts : List String} {v : Val}
    (h : args.map Val.toArgument = texts.map .ok) (mem : v ∈ args) : v.IsTextual := by
  have hmem : v.toArgument ∈ texts.map (Except.ok (ε := CommandFault)) := by
    rw [← h]
    exact List.mem_map_of_mem mem
  obtain ⟨text, -, htext⟩ := List.mem_map.mp hmem
  exact v.isTextual_iff.mpr ⟨text, htext.symm⟩

/-- What the store gives a script is a reply of a command. -/
theorem Custom.isReply_ask {s : Keyspace} {reply : Value}
    (h : (ask clock s access args).1 = .ok reply) : reply.IsReply := by
  unfold ask at h
  split at h
  · cases h
  · exact Keyspace.isReply_dispatch h

/-! ## Answers -/

namespace Script.Machine

/-- A script has been given a table with a single entry, this value under `err`. -/
def IsGivenErr (m : Machine) (v : Val) : Prop :=
  v ≠ .nil ∧ ∃ id, m.control = .give [.table id] ∧
    ∀ k, (m.heap.table id).get k = if k = .ofString "err" then v else .nil

/-- A script raises a failure that has this message. -/
def Raises (m : Machine) (message : Bytes) : Prop :=
  ∃ id < m.heap.failures.size, m.control = .raise (.failure id) ∧ m.heap.failure id = message

variable {m : Machine}

/-- A script is given at most one table. -/
theorem IsGivenErr.eq {v w : Val} (given : m.IsGivenErr v) (other : m.IsGivenErr w) : v = w := by
  obtain ⟨-, id, hcontrol, hget⟩ := given
  obtain ⟨-, id', hcontrol', hget'⟩ := other
  rw [hcontrol] at hcontrol'
  cases hcontrol'
  have hv := hget (.ofString "err")
  rw [hget' (.ofString "err"), if_pos rfl, if_pos rfl] at hv
  exact hv.symm

/-- An error that one way answers is a table with its message. -/
theorem isGivenErr_answer (m : Machine) (e : Error) :
    (m.answer .lenient (.error e)).IsGivenErr (.ofString e.message) := by
  refine ⟨by simp [Val.ofString], m.heap.tables.size, rfl, fun k => ?_⟩
  have htable : (m.answer .lenient (.error e)).heap.table m.heap.tables.size =
      Custom.errorTable e.message := by
    show (m.heap.newTable _).2.table m.heap.tables.size = _
    rw [Heap.table_newTable, if_pos rfl]
  rw [htable, Custom.errorTable, Table.get_set]
  rfl

/-- An error that the other way raises is a failure with its message. -/
theorem raises_answer (m : Machine) (e : Error) :
    (m.answer .strict (.error e)).Raises (bytes e.message) := by
  refine ⟨m.heap.failures.size, ?_, rfl, m.heap.failure_newFailure _⟩
  simp [answer, interrupt, Heap.newFailure]

theorem get_fill_ofString (t : Table) (vs : List Val) (text : String) :
    (t.fill vs).get (.ofString text) = t.get (.ofString text) := by
  induction vs using List.reverseRecOn with
  | nil => rfl
  | append_singleton vs v ih =>
    rw [Table.fill_snoc, Table.get_set, if_neg (by simp [Key.ofString]), ih]

/-- No reply of a command is a table with a single entry under `err`. -/
theorem not_isGivenErr_answer {reply : Value} (isReply : reply.IsReply) (access : StoreAccess)
    (v : Val) : ¬ (m.answer access (.ok reply)).IsGivenErr v := by
  rintro ⟨hv, id, hcontrol, hget⟩
  cases isReply with
  | nil | text | integer => cases hcontrol
  | texts texts =>
    -- a table that is filled with texts has nothing under a name
    cases hcontrol
    have herr := hget (.ofString "err")
    have htable : (m.answer access (.ok (.sequence (texts.map .text)))).heap.table
        (itemsToScript (texts.map .text) m.heap).2.tables.size =
        Table.empty.fill (itemsToScript (texts.map .text) m.heap).1 := by
      show ((itemsToScript (texts.map .text) m.heap).2.newTable _).2.table _ = _
      rw [Heap.table_newTable, if_pos rfl]
    have hnone : (Table.empty.fill (itemsToScript (texts.map .text) m.heap).1).get
        (.ofString "err") = .nil := by
      rw [get_fill_ofString]
      rfl
    rw [htable, hnone, if_pos rfl] at herr
    exact hv herr.symm

end Script.Machine

namespace Invocation

/-- What the two ways to the store have in common at a point of a script, and in what they differ. -/
structure Agree (i : Invocation) (clock : Readings) (args : List Val) : Prop where
  /-- Both run the same commands. -/
  awaited : (i.asking .lenient args).awaited clock = (i.asking .strict args).awaited clock
  /-- Of strings and numbers they run one command, whose name and arguments are their texts. -/
  texts : (∀ v ∈ args, v.IsTextual) → ∃ name rest,
    (i.asking .strict args).awaited clock = [⟨clock, name, rest⟩] ∧
      args.map Val.toArgument = (name :: rest).map .ok
  /-- If there is anything else among the arguments, they run none. -/
  others : (∃ v ∈ args, ¬ v.IsTextual) → (i.asking .strict args).awaited clock = []
  /-- Both leave the same keyspace. -/
  keyspace : (i.through .lenient clock args).keyspace = (i.through .strict clock args).keyspace
  /-- It is the keyspace that the command leaves, or the one that there was if none is run. -/
  effect : (i.through .strict clock args).keyspace =
    i.keyspace.replay ((i.asking .strict args).awaited clock)
  /-- If the command succeeds, both give the script the same value. -/
  success : ∀ c reply, (i.asking .strict args).awaited clock = [c] →
    (i.keyspace.dispatch c.clock c.name c.args).1 = .ok reply →
    (i.through .lenient clock args).machine = (i.through .strict clock args).machine ∧
      ∃ v, (i.through .strict clock args).machine.control = .give [v]
  /-- One raises something exactly if the other answers a table whose only entry is `err`. -/
  failure : (∃ v, (i.through .strict clock args).machine.control = .raise v) ↔
    ∃ v, (i.through .lenient clock args).machine.IsGivenErr v
  /-- What is raised then is a failure, and what is answered is its message. -/
  message : ∀ v, (i.through .lenient clock args).machine.IsGivenErr v →
    ∃ text, v = .ofString text ∧ (i.through .strict clock args).machine.Raises (bytes text)

theorem awaited_asking (i : Invocation) (access : StoreAccess) (args : List Val)
    (clock : Readings) :
    (i.asking access args).awaited clock = (Issued.of? clock (access, args)).toList := rfl

/-- **The two ways to the store agree**, whatever the arguments are, as long as there are any. -/
theorem agree (some : args ≠ []) (i : Invocation) (clock : Readings) : i.Agree clock args := by
  have hcommand := Custom.commandOf_lenient some
  have hask : Custom.ask clock i.keyspace .lenient args =
      Custom.ask clock i.keyspace .strict args := by
    rw [Custom.ask, Custom.ask, hcommand]
  refine ⟨?_, fun textual => ?_, fun other => ?_, ?_, (i.asking .strict args).keyspace_step clock,
    fun c reply hc hreply => ?_, ?_, fun v given => ?_⟩
  · rw [awaited_asking, awaited_asking, Issued.of?, Issued.of?, hcommand]
  · obtain ⟨texts, htexts⟩ := Val.exists_texts textual
    cases texts with
    | nil => exact (some (List.map_eq_nil_iff.mp htexts)).elim
    | cons name rest =>
      refine ⟨name, rest, ?_, htexts⟩
      rw [awaited_asking, Issued.of?, Custom.commandOf_eq_ok_iff.mpr htexts]
      rfl
  · obtain ⟨v, hmem, hv⟩ := other
    cases hof : Custom.commandOf .strict args with
    | error fault =>
      rw [awaited_asking, Issued.of?, hof]
      rfl
    | ok command => exact (hv (Val.isTextual_of_map (Custom.commandOf_eq_ok_iff.mp hof) hmem)).elim
  · rw [through_eq, through_eq, hask]
  · have hstrict : (Custom.ask clock i.keyspace .strict args).1 = .ok reply := by
      cases hof : Custom.commandOf .strict args with
      | error fault =>
        rw [awaited_asking, Issued.of?, hof] at hc
        cases hc
      | ok command =>
        rw [awaited_asking, Issued.of?, hof] at hc
        cases hc
        rw [Custom.ask, hof]
        exact hreply
    rw [through_eq, through_eq, hask, hstrict]
    exact ⟨rfl, _, rfl⟩
  · rw [through_eq, through_eq, hask]
    cases hout : (Custom.ask clock i.keyspace .strict args).1 with
    | ok reply =>
      constructor
      · rintro ⟨v, hraise⟩
        cases hraise
      · rintro ⟨v, hgiven⟩
        exact (Machine.not_isGivenErr_answer (Custom.isReply_ask hout) .lenient v hgiven).elim
    | error e =>
      obtain ⟨id, -, hraise, -⟩ := (i.asking .strict args).machine.raises_answer e
      exact ⟨fun _ => ⟨_, Machine.isGivenErr_answer _ e⟩, fun _ => ⟨_, hraise⟩⟩
  · rw [through_eq, hask] at given
    rw [through_eq]
    cases hout : (Custom.ask clock i.keyspace .strict args).1 with
    | ok reply =>
      rw [hout] at given
      exact (Machine.not_isGivenErr_answer (Custom.isReply_ask hout) .lenient v given).elim
    | error e =>
      rw [hout] at given
      refine ⟨e.message, given.eq (Machine.isGivenErr_answer _ e), ?_⟩
      exact Machine.raises_answer _ e

/-! ## Failures on their way -/

/-- A step keeps what failures say, and so will the next one. -/
theorem remembers_step (keeps : i.machine.Keeps) (clock : Readings) :
    (i.step clock).machine.Keeps ∧ i.machine.heap.Remembers (i.step clock).machine.heap := by
  cases hrunning : i.machine.control.isRunning with
  | false =>
    cases hc : i.machine.control with
    | asks access args =>
      rw [step_of_asks hc]
      refine ⟨keeps.answer _ _, ?_⟩
      cases (Custom.ask clock i.keyspace access args).1 with
      | ok reply => exact .of_failures (reply.gains_toScript i.machine.heap).failures
      | error e =>
        cases access with
        | strict => exact .newFailure _ _
        | lenient => exact .of_failures rfl
    | finished ending =>
      rw [step_of_finished hc]
      exact ⟨keeps, .of_failures rfl⟩
    | _ => rw [hc] at hrunning; cases hrunning
  | true =>
    cases hcheck : i.checksTime with
    | false =>
      rw [step_of_runs hrunning hcheck]
      exact ⟨keeps.step, .of_failures (Machine.failures_step keeps)⟩
    | true =>
      rw [step_of_looks (Bool.and_eq_true_iff.mpr ⟨hrunning, hcheck⟩)]
      split
      · exact ⟨keeps, .newFailure _ _⟩
      · exact ⟨keeps, .of_failures rfl⟩

/-- **However a script goes on, its failures say what they have said.** -/
theorem remembers_run (keeps : i.machine.Keeps) (clocks : List Readings) :
    (i.run clocks).machine.Keeps ∧ i.machine.heap.Remembers (i.run clocks).machine.heap := by
  induction clocks generalizing i with
  | nil => exact ⟨keeps, .of_failures rfl⟩
  | cons clock clocks ih =>
    obtain ⟨hkeeps, hfirst⟩ := remembers_step keeps clock
    obtain ⟨hlater, hrest⟩ := ih hkeeps
    exact ⟨hlater, hfirst.trans hrest⟩

/-- A point of a call of a custom command. -/
def Reached (i : Invocation) : Prop :=
  ∃ (s : Store) (now : Moment) (name : String) (values : List Value) (r : Running)
    (clocks : List Readings), s.begin now name values = .running r ∧ i = (r.run clocks).invocation

theorem Reached.keeps (reached : i.Reached) : i.machine.Keeps := by
  obtain ⟨s, now, name, values, r, clocks, begun, rfl⟩ := reached
  have hstart : r.invocation.machine.Keeps := by
    unfold Store.begin at begun
    split at begun
    · cases begun
    · split at begun
      · cases begun
      · split at begun
        · cases begun
        · cases begun
          exact Machine.keeps_start _ (Routine.keeps_publish _ _) _
  rw [Running.run_eq]
  exact (remembers_run hstart clocks).1

/-- Whether a protected call is running. Scripts of this library have no other way of going on behind
a failure. -/
def isProtected (i : Invocation) : Bool := i.machine.frames.any Frame.isProtection

/-- What a failure comes to that is raised at some later point of a call. -/
structure Means (i : Invocation) (id : Nat) (text : String) : Prop where
  /-- If nothing catches it, the call fails with this text; and whatever catches it, the script is
  given the failure itself. -/
  raised : ∀ clocks next, (i.run clocks).machine.control = .raise (.failure id) →
    (i.run clocks).checksTime = false →
    ((i.run clocks).isProtected = false ∧
        ((i.run clocks).step next).result? = some (.error (.script (.uncaught text)))) ∨
      ((i.run clocks).isProtected = true ∧
        ((i.run clocks).step next).machine.control = .give [.bool false, .failure id])
  /-- If the script fails with that again, it is raised again. -/
  rethrown : ∀ clocks next line,
    (i.run clocks).machine.control = .call (.builtin .error) [.failure id] line →
    (i.run clocks).checksTime = false →
    ((i.run clocks).step next).machine.control = .raise (.failure id) ∧
      ((i.run clocks).step next).machine.frames = (i.run clocks).machine.frames

/-- A failure that is caught is given to the script. -/
theorem control_of_caught (raised : i.machine.control = .raise (.failure id))
    (unchecked : i.checksTime = false) (caught : i.isProtected = true) (next : Readings) :
    (i.step next).machine.control = .give [.bool false, .failure id] := by
  have hrunning : i.machine.control.isRunning = true := by rw [raised]; rfl
  rw [step_of_runs hrunning unchecked]
  show (Next.after i.machine.control i.machine.frames i.machine.heap).1 = _
  rw [raised]
  show (Next.unwind (.failure id) i.machine.frames i.machine.heap).1 = _
  unfold Next.unwind
  split
  · rfl
  · rename_i hnone
    have hall := List.dropWhile_eq_nil_iff.mp hnone
    obtain ⟨frame, hmem, hprotects⟩ := List.any_eq_true.mp caught
    have hnot := hall frame hmem
    rw [hprotects] at hnot
    cases hnot

/-- A failure that is not caught ends the call with its message. -/
theorem result_of_uncaught {text : String} (raised : i.machine.control = .raise (.failure id))
    (worded : i.machine.heap.failure id = bytes text) (unchecked : i.checksTime = false)
    (uncaught : i.isProtected = false) (next : Readings) :
    (i.step next).result? = some (.error (.script (.uncaught text))) := by
  have hrunning : i.machine.control.isRunning = true := by rw [raised]; rfl
  have hover : (i.step next).machine.control = .finished (.error (bytes text)) := by
    rw [step_of_runs hrunning unchecked]
    show (Next.after i.machine.control i.machine.frames i.machine.heap).1 = _
    rw [raised]
    show (Next.unwind (.failure id) i.machine.frames i.machine.heap).1 = _
    rw [Next.unwind_of_unprotected uncaught, worded]
  have hdecode : Utf8.decode (bytes text) = text := Utf8.decode_encode text
  rw [result?, hover]
  simp only [hdecode]

/-- Failing with a failure raises it again. -/
theorem control_of_rethrown {line : Option Nat}
    (called : i.machine.control = .call (.builtin .error) [.failure id] line)
    (unchecked : i.checksTime = false) (next : Readings) :
    (i.step next).machine.control = .raise (.failure id) ∧
      (i.step next).machine.frames = i.machine.frames := by
  have hrunning : i.machine.control.isRunning = true := by rw [called]; rfl
  rw [step_of_runs hrunning unchecked]
  have hafter : Next.after i.machine.control i.machine.frames i.machine.heap =
      (.raise (.failure id), i.machine.frames, i.machine.heap) := by
    rw [called]
    rfl
  exact ⟨congrArg Prod.fst hafter, congrArg (fun s => s.2.1) hafter⟩

/-- **What a failure says it means, wherever the script takes it.** -/
theorem means_of_failure {text : String} (keeps : i.machine.Keeps)
    (there : id < i.machine.heap.failures.size) (worded : i.machine.heap.failure id = bytes text) :
    i.Means id text where
  raised clocks next raised unchecked := by
    have hworded := (remembers_run keeps clocks).2.failure id there
    cases hprotected : (i.run clocks).isProtected with
    | false =>
      exact .inl ⟨rfl, result_of_uncaught raised (hworded.trans worded) unchecked hprotected next⟩
    | true => exact .inr ⟨rfl, control_of_caught raised unchecked hprotected next⟩
  rethrown clocks next line called unchecked := control_of_rethrown called unchecked next

end Invocation

/-- **The two ways to the store agree.** They run the same command, or none, and do the same to the
keyspace; if the command succeeds both give the script the same value, and if it fails, one raises a
failure whose message is the one that the other answers. The call fails with just this message if
the failure is not caught where it is raised, nor where a script that has caught it raises it
again. -/
theorem ways_to_store_agree (some : args ≠ []) (i : Invocation) (clock : Readings) :
    (∀ access line, i.checksTime = false →
      (i.calling access args line).step clock = i.asking access args) ∧
    i.Agree clock args ∧
    (i.Reached → ∀ v, (i.through .strict clock args).machine.control = .raise v →
      ∃ id text, v = .failure id ∧
        (i.through .lenient clock args).machine.IsGivenErr (.ofString text) ∧
        (i.through .strict clock args).Means id text) := by
  have hagree := Invocation.agree some i clock
  refine ⟨fun access line unchecked => i.step_calling unchecked access args line clock, hagree,
    fun reached v raised => ?_⟩
  obtain ⟨w, given⟩ := hagree.failure.mp ⟨v, raised⟩
  obtain ⟨text, rfl, id, there, hcontrol, worded⟩ := hagree.message w given
  have hv : v = .failure id := Control.raise.inj (raised.symm.trans hcontrol)
  have hkeeps : (i.through .strict clock args).machine.Keeps :=
    (Invocation.remembers_step (i := i.asking .strict args) reached.keeps clock).1
  exact ⟨id, text, hv, given, Invocation.means_of_failure hkeeps there worded⟩

/-- A custom command whose script catches a failure of the store and fails with it again. -/
def rethrowing : Definition :=
  let body : Block := [.perform (storeCall "GET" [] 1)]
  { keys := 0
    chunk := ⟨[.declare 2 [.call (.global (bytes "pcall") 1) [.function (.mk 0 false body)] 1],
      .perform (.call (.global (bytes "error") 2) [.slot 0] 2)]⟩ }

/-- A store without keys, in which that is a custom command. -/
def rethrowingStore : Store :=
  { keyspace := .empty
    scripting := .ready { heap := .initial, definitions := .ofList [("f", rethrowing)] }
    options := .default }

/-- The call of that custom command. -/
def rethrowingRun : Running :=
  { invocation := .start .default 0 .empty rethrowing.chunk .initial [] []
    definitions := .ofList [("f", rethrowing)] }

theorem begin_rethrowingStore : rethrowingStore.begin ⟨0, 0⟩ "f" [] = .running rethrowingRun := by
  have hfind : Scripting.find
      { heap := .initial, definitions := .ofList [("f", rethrowing)] } "f" [] =
      .ok rethrowing := by
    simp [Scripting.find, Std.TreeMap.ofList_singleton, rethrowing]
  have hargs : Value.arguments [] = .ok [] := rfl
  simp only [Store.begin, hargs, rethrowingStore, Scripting.environment, hfind]
  rfl

/-- The failure that is raised. -/
def Script.Control.raised? : Script.Control → Option Nat
  | .raise (.failure id) => some id
  | _ => none

theorem Script.Control.raised?_eq_some_iff {c : Script.Control} :
    c.raised? = some id ↔ c = .raise (.failure id) := by
  constructor
  · intro h
    unfold raised? at h
    split at h
    · cases h
      rfl
    · cases h
  · rintro rfl
    rfl

/-- A failure of the store that a protected call has caught, and that is raised again, ends the call
with the message that the other way to the store would have answered. -/
theorem ways_to_store_agree_rethrown :
    let clock := Readings.frozen ⟨0, 0⟩
    let message := "ERR wrong number of arguments for 'get' command"
    ∃ i : Invocation, i.Reached ∧ i.machine.control = .asks .strict [.ofString "GET"] ∧
      i.isProtected = true ∧
      (i.through .lenient clock [.ofString "GET"]).machine.IsGivenErr (.ofString message) ∧
      (i.run (List.replicate 10 clock)).result? = some (.error (.script (.uncaught message))) := by
  intro clock message
  have hrun := Running.run_eq rethrowingRun (List.replicate 18 clock)
  have hreached : (rethrowingRun.run (List.replicate 18 clock)).invocation.Reached :=
    ⟨_, _, _, _, rethrowingRun, List.replicate 18 clock, begin_rethrowingStore, rfl⟩
  have hasks : (rethrowingRun.invocation.run (List.replicate 18 clock)).machine.control =
      .asks .strict [.ofString "GET"] := by cbv
  have hoptions := (rethrowingRun.invocation.options_run (List.replicate 18 clock)).1
  -- it is raised where it is caught, and again eight steps later, where nothing catches it
  have hsteps : let i := rethrowingRun.invocation.run (List.replicate 18 clock)
      (i.step clock).machine.control.raised? = some 0 ∧ i.isProtected = true ∧
        ((i.step clock).run (List.replicate 8 clock)).machine.control.raised? = some 0 ∧
        ((i.step clock).run (List.replicate 8 clock)).isProtected = false ∧
        (i.run (List.replicate 10 clock)).failure? = some (.script (.uncaught message)) := by
    decide +kernel
  rw [hrun] at hreached
  generalize rethrowingRun.invocation.run (List.replicate 18 clock) = i at *
  obtain ⟨hfirst, hcaught, hagain, huncaught, hfails⟩ := hsteps
  rw [Control.raised?_eq_some_iff] at hfirst hagain
  have hthrough : i.through .strict clock [.ofString "GET"] = i.step clock := by
    rw [Invocation.through, Invocation.asking, ← hasks]
  obtain ⟨-, -, hmeans⟩ := ways_to_store_agree (List.cons_ne_nil (.ofString "GET") []) i clock
  rw [hthrough] at hmeans
  obtain ⟨id, text, hid, hgiven, means⟩ := hmeans hreached _ hfirst
  cases hid
  have hlimit : ((i.step clock).run (List.replicate 8 clock)).checksTime = false := by
    rw [Invocation.checksTime, (Invocation.options_run _ _).1, (Invocation.options_step _ _).1,
      hoptions]
    rfl
  have hends : (i.run (List.replicate 10 clock)).result? =
      some (.error (.script (.uncaught text))) := by
    rcases means.raised (List.replicate 8 clock) clock hagain hlimit with ⟨-, hends⟩ | ⟨hcaught, -⟩
    · exact hends
    · rw [huncaught] at hcaught
      cases hcaught
  have htext : text = message := by
    rw [Invocation.failure?, hends] at hfails
    cases hfails
    rfl
  rw [htext] at hgiven hends
  exact ⟨i, hreached, hasks, hcaught, hgiven, hends⟩

end ScriptStore
