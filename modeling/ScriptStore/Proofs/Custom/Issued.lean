import Mathlib
import ScriptStore.Proofs.Custom.Hosting
import ScriptStore.Proofs.Script.Asking

/-!
# What a script does to the keyspace

A script does to the keyspace what the commands do that it issues, however it goes about it and
however it ends: each of them once, in their order, at the readings of the clocks in its turn. That
is so of any interpreter, and of the one of this library.

* `Invocation.issued` — the commands that a script issues in a run. They are read off the calls of
  the store functions that it makes, and not off the keyspace.
* `Invocation.keyspace_run` — a run does what the commands do that it issues, at each of its points.
* `Running.keyspace_of_begin` — so does the call of a custom command, and after its end nothing more
  happens.
* `effect_of_script_is_its_commands` — **scripts leave the keyspace as the commands leave it that they
  have issued**, whatever the interpreter.
* `command_behind_uncaught_error` — a script issues a command behind the point where it has failed.
-/

namespace ScriptStore

open Script (StoreAccess Val Machine Control)

variable {i : Invocation} {clock : Readings} {clocks more : List Readings} {s : Keyspace}

namespace Invocation

/-- The call of a store function that the next step makes. A look at the time makes none. -/
def call? (i : Invocation) : Option (StoreAccess × List Val) :=
  if i.checksTime then none else i.machine.storeCall?

/-- The commands that a script issues in a run. A step that calls a store function issues a command
at the readings of the step behind it. -/
def issued (i : Invocation) : List Readings → List Issued
  | clock :: next :: clocks =>
    (i.call?.bind (Issued.of? next)).toList ++ (i.step clock).issued (next :: clocks)
  | _ => []

/-! ## Commands that run -/

/-- The command that the next step runs. -/
def awaited (i : Invocation) (clock : Readings) : List Issued :=
  (i.machine.control.asked?.bind (Issued.of? clock)).toList

/-- The commands that run in a run. -/
def ran (i : Invocation) : List Readings → List Issued
  | [] => []
  | clock :: clocks => i.awaited clock ++ (i.step clock).ran clocks

/-- A step touches the keyspace only by running the command that the script waits for. -/
theorem keyspace_step (i : Invocation) (clock : Readings) :
    (i.step clock).keyspace = i.keyspace.replay (i.awaited clock) := by
  unfold step awaited
  cases i.machine.control with
  | asks access args =>
    simp only [Control.asked?, Custom.ask, Option.bind_some, Issued.of?]
    cases Custom.commandOf access args <;> rfl
  | finished ending => rfl
  | _ =>
    simp only
    split <;> rfl

theorem keyspace_run_ran (i : Invocation) (clocks : List Readings) :
    (i.run clocks).keyspace = i.keyspace.replay (i.ran clocks) := by
  induction clocks generalizing i with
  | nil => rfl
  | cons clock clocks ih =>
    rw [ran, Keyspace.replay_append, ← keyspace_step]
    exact ih (i.step clock)

/-! ## Commands that run have been issued -/

/-- An answer of the store leaves no script waiting. -/
theorem asked?_answer (m : Machine) (access : StoreAccess) (outcome : Except Error Value) :
    (m.answer access outcome).control.asked? = none := by
  cases outcome with
  | ok reply => rfl
  | error e => cases access <;> rfl

/-- A look at the time leaves no script waiting that was not. -/
theorem asked?_checkTime (m : Machine) (late : Bool) (h : m.control.asked? = none) :
    (if late then m.interrupt timeoutMessage else m).control.asked? = none := by
  split
  · rfl
  · exact h

/-- After a step, a script waits for what the step has called a store function for. -/
theorem asked?_step (i : Invocation) (clock : Readings) :
    (i.step clock).machine.control.asked? = i.call? := by
  have hstep := i.machine.asked?_step
  unfold step call?
  cases hc : i.machine.control with
  | asks access args =>
    have hnone : i.machine.storeCall? = none := by simp [Machine.storeCall?, Machine.call?, hc]
    rw [hnone, ite_self]
    exact asked?_answer i.machine access _
  | finished ending =>
    have hnone : i.machine.storeCall? = none := by simp [Machine.storeCall?, Machine.call?, hc]
    rw [hnone, ite_self, hc]
    rfl
  | _ =>
    rw [hc] at hstep
    simp only
    split
    · exact asked?_checkTime _ _ (by rw [hc]; rfl)
    · exact hstep

/-- The commands that run are the one that the script has been waiting for and those that it
issues. -/
theorem ran_eq_awaited_append_issued (i : Invocation) (clock : Readings)
    (clocks : List Readings) :
    i.ran (clock :: clocks) = i.awaited clock ++ i.issued (clock :: clocks) := by
  induction clocks generalizing i clock with
  | nil => rfl
  | cons next clocks ih =>
    have hnext : (i.step clock).awaited next = (i.call?.bind (Issued.of? next)).toList := by
      rw [awaited, asked?_step]
    rw [ran, ih, issued, hnext]

theorem ran_eq_issued (h : i.machine.control.asked? = none) (clocks : List Readings) :
    i.ran clocks = i.issued clocks := by
  cases clocks with
  | nil => rfl
  | cons clock clocks =>
    rw [ran_eq_awaited_append_issued, awaited, h]
    rfl

/-! ## Runs -/

/-- A run does to the keyspace what the commands do that the script issues in it. -/
theorem keyspace_run (h : i.machine.control.asked? = none) (clocks : List Readings) :
    (i.run clocks).keyspace = i.keyspace.replay (i.issued clocks) := by
  rw [keyspace_run_ran, ran_eq_issued h]

theorem run_append (i : Invocation) (clocks more : List Readings) :
    i.run (clocks ++ more) = (i.run clocks).run more :=
  List.foldl_append

theorem ran_append (i : Invocation) (clocks more : List Readings) :
    i.ran (clocks ++ more) = i.ran clocks ++ (i.run clocks).ran more := by
  induction clocks generalizing i with
  | nil => rfl
  | cons clock clocks ih =>
    simp only [List.cons_append, ran, ih, List.append_assoc]
    rfl

/-- A script that is over takes no more steps. -/
theorem step_of_result? (h : i.result?.isSome) (clock : Readings) : i.step clock = i := by
  unfold result? at h
  unfold step
  split at h
  · rename_i hc
    rw [hc]
  · rename_i hc
    rw [hc]
  · cases h

theorem run_of_result? (h : i.result?.isSome) (more : List Readings) : i.run more = i := by
  induction more with
  | nil => rfl
  | cons clock more ih =>
    have hstep := step_of_result? h clock
    rw [run, List.foldl_cons, hstep]
    exact ih

/-- A script that is over issues nothing. -/
theorem ran_of_result? (h : i.result?.isSome) (more : List Readings) : i.ran more = [] := by
  induction more with
  | nil => rfl
  | cons clock more ih =>
    have hnone : i.machine.control.asked? = none := by
      unfold result? at h
      split at h
      · rename_i hc
        rw [hc]; rfl
      · rename_i hc
        rw [hc]; rfl
      · cases h
    rw [ran, step_of_result? h, ih, awaited, hnone]
    rfl

end Invocation

/-! ## Calls of custom commands -/

namespace Running

variable {r : Running}

/-- Steps with their readings of the clocks. -/
def run (r : Running) (clocks : List Readings) : Running :=
  clocks.foldl (fun r clock => r.step clock) r

theorem run_eq (r : Running) (clocks : List Readings) :
    r.run clocks = { r with invocation := r.invocation.run clocks } := by
  induction clocks generalizing r with
  | nil => rfl
  | cons clock clocks ih => exact ih (r.step clock)

end Running

/-- Whether a call begins, and so that something holds of it, can be decided. -/
instance (begun : Store.Begun) (p : Running → Prop) [DecidablePred p] :
    Decidable (∃ r, begun = .running r ∧ p r) :=
  match begun with
  | .refused _ _ => isFalse fun ⟨_, h, _⟩ => Store.Begun.noConfusion h
  | .running r => decidable_of_iff (p r) (by simp)

/-- A call of a custom command begins with the keyspace as it is, and waits for nothing. -/
theorem Store.start_of_begin {s : Store} {now : Moment} {name : String} {args : List Value}
    {r : Running} (begun : s.begin now name args = .running r) :
    r.invocation.keyspace = s.keyspace ∧ r.invocation.machine.control.asked? = none := by
  unfold begin at begun
  split at begun
  · cases begun
  · split at begun
    · cases begun
    · split at begun
      · cases begun
      · cases begun
        exact ⟨rfl, Script.Next.quiet_perform _ _ _ _⟩

/-- A call of a custom command leaves the keyspace as the commands leave it that its script has
issued, at every point of the call, and however it ends; after its end nothing more happens. -/
theorem Running.keyspace_of_begin {s : Store} {now : Moment} {name : String} {args : List Value}
    {r : Running} (begun : s.begin now name args = .running r) (clocks : List Readings) :
    (r.run clocks).invocation.keyspace = s.keyspace.replay (r.invocation.issued clocks) ∧
      ∀ result after, (r.run clocks).outcome? = some (result, after) →
        after.keyspace = s.keyspace.replay (r.invocation.issued clocks) ∧
          ∀ more, (r.run (clocks ++ more)).outcome? = some (result, after) ∧
            r.invocation.issued (clocks ++ more) = r.invocation.issued clocks := by
  obtain ⟨hkeys, hquiet⟩ := Store.start_of_begin begun
  have hrun : (r.run clocks).invocation.keyspace =
      s.keyspace.replay (r.invocation.issued clocks) := by
    rw [Running.run_eq, ← hkeys]
    exact Invocation.keyspace_run hquiet clocks
  refine ⟨hrun, fun result after hend => ?_⟩
  obtain ⟨_, hresult, rfl, rfl⟩ : ∃ x, (r.run clocks).invocation.result? = some x ∧ x = result ∧
      _ = after := by simpa [Running.outcome?] using hend
  have hover : (r.invocation.run clocks).result?.isSome := by
    rw [Running.run_eq] at hresult
    rw [hresult]
    rfl
  refine ⟨hrun, fun more => ⟨?_, ?_⟩⟩
  · have hsame : r.run (clocks ++ more) = r.run clocks := by
      rw [Running.run_eq, Running.run_eq, Invocation.run_append, Invocation.run_of_result? hover]
    rw [hsame]
    exact hend
  · rw [← Invocation.ran_eq_issued hquiet, ← Invocation.ran_eq_issued hquiet,
      Invocation.ran_append, Invocation.ran_of_result? hover, List.append_nil]

/-- **Scripts leave the keyspace as the commands leave it that they have issued**, each of them run
once, in their order and at the readings of the clocks in its turn.

* It is so for any interpreter, in whatever it does and at every point of it, and across whatever the
  store has it do: what it runs of its own accord, behind the end of a script or when the store lets
  go of it, counts like the script. Once it rests, nothing more happens until it is entered again.
* So it is for the scripts of this library, whose commands are read off the calls of the store
  functions. However a call of a custom command ends, after its end nothing more happens. -/
theorem effect_of_script_is_its_commands (I : Interpreter) (h : Hosted I) :
    (∀ clocks, (h.run clocks).keyspace = h.keyspace.replay (h.issued clocks) ∧
      (I.doing (h.run clocks).state = .rests → ∀ more,
        h.run (clocks ++ more) = h.run clocks ∧ h.issued (clocks ++ more) = h.issued clocks)) ∧
    (∀ uses, (h.after uses).keyspace = h.keyspace.replay (h.issuedIn uses)) ∧
    ∀ (s : Store) (now : Moment) (name : String) (args : List Value) (r : Running),
      s.begin now name args = .running r → ∀ clocks,
        (r.run clocks).invocation.keyspace = s.keyspace.replay (r.invocation.issued clocks) ∧
          ∀ result after, (r.run clocks).outcome? = some (result, after) →
            after.keyspace = s.keyspace.replay (r.invocation.issued clocks) ∧
              ∀ more, (r.run (clocks ++ more)).outcome? = some (result, after) ∧
                r.invocation.issued (clocks ++ more) = r.invocation.issued clocks := by
  refine ⟨fun clocks => ⟨h.keyspace_run clocks, fun rests more => ?_⟩, h.keyspace_after,
    fun s now name args r begun => Running.keyspace_of_begin begun⟩
  obtain ⟨hrun, hissued⟩ := Hosted.run_of_rests rests more
  rw [Hosted.run_append, Hosted.issued_append, hrun, hissued, List.append_nil]
  exact ⟨rfl, rfl⟩

/-- A script that drops all keys and then fails, since it calls the reply. -/
def failingDefinition : Definition :=
  let redisCall : Script.Expr :=
    .index (.global (Script.bytes "redis") 1) (.string (Script.bytes "call")) 1
  let flush : Script.Expr := .call redisCall [.string (Script.bytes "FLUSHALL")] 1
  { keys := 0, chunk := ⟨[.perform (.call flush [] 1)]⟩ }

/-- A store with a key, in which that script is a custom command. -/
def failingStore : Store :=
  { keyspace := Keyspace.empty.insert "k" (.lasting (.string "v"))
    scripting := .ready { heap := .initial, definitions := .ofList [("f", failingDefinition)] }
    options := .default }

/-- The call of that custom command. -/
def failingRun : Running :=
  { invocation := .start .default 0 failingStore.keyspace failingDefinition.chunk .initial [] []
    definitions := .ofList [("f", failingDefinition)] }

theorem begin_failingStore : failingStore.begin ⟨0, 0⟩ "f" [] = .running failingRun := by
  have hfind : Scripting.find
      { heap := .initial, definitions := .ofList [("f", failingDefinition)] } "f" [] =
      .ok failingDefinition := by
    simp [Scripting.find, Std.TreeMap.ofList_singleton, failingDefinition]
  have hargs : Value.arguments [] = .ok [] := rfl
  simp only [Store.begin, hargs, failingStore, Scripting.environment, hfind]
  rfl

/-- The keys stay dropped when the script fails. -/
theorem effect_of_failing_script_is_its_commands :
    (failingRun.run (List.replicate 16 (.frozen ⟨0, 0⟩))).invocation.result?.map Except.isOk =
        some false ∧
      (failingRun.run (List.replicate 16 (.frozen ⟨0, 0⟩))).invocation.keyspace = .empty := by
  refine ⟨by decide +kernel, ?_⟩
  have hissued : failingRun.invocation.issued (List.replicate 16 (.frozen ⟨0, 0⟩)) =
      [⟨.frozen ⟨0, 0⟩, "FLUSHALL", []⟩] := by cbv
  obtain ⟨-, -, hcall⟩ :=
    effect_of_script_is_its_commands _ (failingRun.invocation.hosted .default)
  rw [(hcall _ _ _ _ _ begin_failingStore _).1, hissued]
  rfl

/-- A script that fails with a table whose words are found by issuing a command. -/
def lateSource : String :=
  "error(setmetatable(\x7b\x7d, \x7b__tostring = function() " ++
    "redis.call('SET', 'late', '1') return 'x' end\x7d))"

/-- The value that a script raises, while no protected call is running. -/
def Invocation.uncaught? (i : Invocation) : Option Val :=
  match i.machine.control with
  | .raise v => if i.machine.frames.any Script.Frame.isProtection then none else some v
  | _ => none

/-- A call after so many steps while the clocks stand still. -/
def Running.afterSteps (r : Running) (n : Nat) : Invocation :=
  (r.run (List.replicate n (.frozen ⟨0, 0⟩))).invocation

/-- A command is applied behind the point where its script has been aborted: to put into words what
nothing has caught may take a function of the script. -/
theorem command_behind_uncaught_error :
    ∃ r, (Store.new.define "late" 0 lateSource).2.begin ⟨0, 0⟩ "late" [] = .running r ∧
      (r.afterSteps 17).uncaught?.isSome = true ∧ (r.afterSteps 17).keyspace.entries.size = 0 ∧
      ((r.afterSteps 17).issued (List.replicate 23 (.frozen ⟨0, 0⟩))).map
        (fun c => (c.name, c.args)) = [("SET", ["late", "1"])] ∧
      (r.afterSteps 40).keyspace.entries.size = 1 ∧
      (r.afterSteps 40).result?.map Except.isOk = some false := by
  decide +kernel

end ScriptStore
