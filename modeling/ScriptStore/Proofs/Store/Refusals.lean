import ScriptStore.Proofs.Custom.Arguments
import ScriptStore.Proofs.Store.Definitions

/-!
# What becomes of a call

A call of a custom command is refused, or its script is run. Which of the two, and with which error,
is decided by the arguments and the history, in a fixed order: arguments that are no scalars, a
store that has been disposed of, a name that has not been defined, too few arguments for the keys. A
call that is refused has changed nothing.

* `Value.isScalar` — the values that can be arguments.
* `Invocation.result_eq_ok_or_script` — a script gives a value or the error of a script.
* `refusals_of_call` — **whether a call is refused, and with which error**, and what follows if it
  is not.
* `body_kept_from_running` — a metatable of the global variables can keep the script from running.
-/

namespace ScriptStore

variable {options : Options} {s : Store} {ops : List Operation} {events : List Event}
  {args : List Value}

/-! ## Arguments -/

/-- The values that can be arguments. -/
def Value.isScalar : Value → Bool
  | .nil | .sequence _ | .mapping _ => false
  | .text _ | .integer _ | .float _ | .boolean _ => true

namespace Value

theorem exists_argument_of_isScalar {v : Value} (h : v.isScalar = true) :
    ∃ text, v.argument = .ok text := by
  cases v with
  | nil | sequence | mapping => cases h
  | _ => exact ⟨_, rfl⟩

theorem exists_fault_of_not_isScalar {v : Value} (h : v.isScalar = false) :
    ∃ fault, v.argument = .error (.invalidArgument fault) := by
  cases v with
  | nil | sequence | mapping => exact ⟨_, rfl⟩
  | _ => cases h

theorem arguments_cons (v : Value) (args : List Value) :
    arguments (v :: args) =
      v.argument.bind fun text => (arguments args).map fun texts => text :: texts := by
  rw [arguments, List.mapM_cons]
  rfl

/-- Scalars are arguments, each with a text. -/
theorem exists_arguments_of_scalars (scalars : ∀ v ∈ args, v.isScalar = true) :
    ∃ texts, arguments args = .ok texts ∧ texts.length = args.length := by
  induction args with
  | nil => exact ⟨[], rfl, rfl⟩
  | cons v args ih =>
    obtain ⟨hv, hargs⟩ := List.forall_mem_cons.mp scalars
    obtain ⟨text, htext⟩ := exists_argument_of_isScalar hv
    obtain ⟨texts, htexts, hlength⟩ := ih hargs
    refine ⟨text :: texts, ?_, congrArg (· + 1) hlength⟩
    rw [arguments_cons, htext, htexts]
    rfl

/-- One value that is no scalar is enough to be refused. -/
theorem exists_fault_of_not_scalar (other : ∃ v ∈ args, v.isScalar = false) :
    ∃ fault, arguments args = .error (.invalidArgument fault) := by
  induction args with
  | nil =>
    obtain ⟨v, hmem, -⟩ := other
    cases hmem
  | cons v args ih =>
    rw [arguments_cons]
    cases hv : v.isScalar with
    | false =>
      obtain ⟨fault, hfault⟩ := exists_fault_of_not_isScalar hv
      rw [hfault]
      exact ⟨fault, rfl⟩
    | true =>
      obtain ⟨text, htext⟩ := exists_argument_of_isScalar hv
      obtain ⟨w, hmem, hw⟩ := other
      have htail : ∃ v ∈ args, v.isScalar = false := by
        rcases List.mem_cons.mp hmem with rfl | hmem
        · rw [hv] at hw
          cases hw
        · exact ⟨w, hmem, hw⟩
      obtain ⟨fault, hfault⟩ := ih htail
      rw [htext, hfault]
      exact ⟨fault, rfl⟩

end Value

/-! ## Results -/

/-- Whatever fails in a script, its failure is the error of a script. -/
theorem Invocation.result_eq_ok_or_script {i : Invocation} {result : Except Error Value}
    (h : i.result? = some result) :
    (∃ v, result = .ok v) ∨ ∃ fault, result = .error (.script fault) := by
  unfold result? at h
  split at h
  · rename_i vs hcontrol
    cases h
    cases (vs.headD .nil).toReply i.machine.heap with
    | ok v => exact .inl ⟨v, rfl⟩
    | error fault => exact .inr ⟨fault, rfl⟩
  · cases h
    exact .inr ⟨_, rfl⟩
  · cases h

/-! ## Calls -/

/-- **Whether a call is refused, and with which error**, is decided in this order: an argument that
is no scalar; a store that has been disposed of; a name that has not been defined with success;
fewer arguments than the last such definition gave keys. A call that is refused has changed nothing,
but that an environment may have been made. Any other call runs the source that was defined last: it
goes right into its body if the arguments can be published at once, and whatever happens in it, it
gives a value or fails with the error of a script. -/
theorem refusals_of_call (checked : options.check = .ok options)
    (run : (Store.build options).history? ops = some (events, s)) (now : Moment) (name : String)
    (args : List Value) :
    ((∃ v ∈ args, v.isScalar = false) →
      ∃ fault, s.begin now name args = .refused (.invalidArgument fault) s) ∧
    ((∀ v ∈ args, v.isScalar = true) →
      (.dispose ∈ ops → s.begin now name args = .refused (.lifecycle .disposed) s) ∧
      (.dispose ∉ ops →
        (latest? name events = none → ∃ e after, s.begin now name args = .refused e after ∧
          e = .command (.unknownCustom name) ∧
          e.message = "ERR unknown custom command '" ++ name ++ "'" ∧ s.Unchanged after) ∧
        ∀ keys source, latest? name events = some (keys, source) →
          (args.length < keys → ∃ after,
            s.begin now name args =
                .refused (.invalidArgument (.tooFewArguments name keys args.length)) after ∧
              s.Unchanged after) ∧
          (keys ≤ args.length → ∃ env texts chunk, s.scripting.environment = .ok env ∧
            Value.arguments args = .ok texts ∧ Script.Chunk.ofSource source = .ok chunk ∧
            let r := s.call env now ⟨keys, chunk⟩ texts
            s.begin now name args = .running r ∧
              ((env.heap.withChunk chunk).Publishes (texts.take keys) (texts.drop keys) →
                ∀ clock, (r.step clock).invocation.machine.control =
                  .run (.start chunk.body .ofBody)) ∧
              ∀ clocks result after, (r.run clocks).outcome? = some (result, after) →
                (∃ v, result = .ok v) ∨ ∃ fault, result = .error (.script fault)))) := by
  have hrecorded := Store.recorded_of_historyBy? run
  have hdisposed := Store.isDisposed_iff run
  refine ⟨fun hother => ?_, fun hscalars => ?_⟩
  · obtain ⟨fault, hfault⟩ := Value.exists_fault_of_not_scalar hother
    exact ⟨fault, Store.begin_of_arguments hfault⟩
  obtain ⟨texts, htexts, hlength⟩ := Value.exists_arguments_of_scalars hscalars
  refine ⟨fun hdispose => ?_, fun hkept => ?_⟩
  · have hover := Scripting.environment_of_isDisposed (hdisposed.mpr hdispose)
    exact Store.begin_of_environment htexts hover
  have hready : s.isDisposed = false := by
    rwa [← Bool.not_eq_true, hdisposed]
  obtain ⟨env, henv⟩ := Scripting.exists_environment hready
  refine ⟨fun hlatest => ?_, fun keys source hlatest => ?_⟩
  · obtain ⟨after, hbegin, hunchanged⟩ := hrecorded.begin_of_undefined henv hlatest htexts now
    exact ⟨_, after, hbegin, rfl, rfl, hunchanged⟩
  rw [← hlength]
  obtain ⟨chunk, hchunk, hcall⟩ := hrecorded.begin_of_latest henv hlatest
  obtain ⟨hfew, henough⟩ := hcall now args texts htexts
  refine ⟨hfew, fun enough => ⟨env, texts, chunk, henv, htexts, hchunk, henough enough, ?_, ?_⟩⟩
  · rintro ⟨heap, hpublished⟩ clock
    have hchecked : s.options.check = .ok s.options := by
      rwa [Store.options_of_historyBy? run]
    have hstep := Invocation.step_start hchecked hpublished now.nanos s.keyspace clock
    simp only [Running.step, Store.call, hstep]
  · intro clocks result after houtcome
    exact Invocation.result_eq_ok_or_script (Store.of_outcome? houtcome).1

/-- Behind the definition of `echo` with one key, each kind of call comes to what it should. -/
theorem refusals_of_echo :
    ∃ chunk events s, Script.Chunk.ofSource "return KEYS[1]" = .ok chunk ∧
      (Store.build .default).history? [.define "echo" 1 "return KEYS[1]"] = some (events, s) ∧
      (∃ fault, s.begin ⟨0, 0⟩ "Echo" [.text "k", .nil] = .refused (.invalidArgument fault) s) ∧
      (∃ e after, s.begin ⟨0, 0⟩ "Echo" [.text "k"] = .refused e after ∧
        e.message = "ERR unknown custom command 'Echo'") ∧
      (∃ after, s.begin ⟨0, 0⟩ "echo" [] =
        .refused (.invalidArgument (.tooFewArguments "echo" 1 0)) after) ∧
      ∃ r, s.begin ⟨0, 0⟩ "echo" [.text "k", .text "v"] = .running r ∧ ∀ clock,
        (r.step clock).invocation.machine.control = .run (.start chunk.body .ofBody) := by
  have hcompiles : (Script.Chunk.ofSource "return KEYS[1]").isOk = true := by decide +kernel
  obtain ⟨chunk, hchunk⟩ : ∃ chunk, Script.Chunk.ofSource "return KEYS[1]" = .ok chunk := by
    cases hsource : Script.Chunk.ofSource "return KEYS[1]" with
    | ok chunk => exact ⟨chunk, rfl⟩
    | error fault =>
      rw [hsource] at hcompiles
      cases hcompiles
  let s := (Store.build .default).withScripting
    (.ready ⟨.initial, (∅ : Std.TreeMap String Definition).insert "echo" ⟨1, chunk⟩⟩)
  have hrun : (Store.build .default).history? [.define "echo" 1 "return KEYS[1]"] =
      some ([⟨.define "echo" 1 "return KEYS[1]", .ok .nothing⟩], s) := by
    have hdefine := Store.defineBy_of_chunk (s := Store.build .default) rfl hchunk "echo" 1
    simp only [Store.history?, Store.historyBy?, Operation.performBy, hdefine]
    rfl
  have hkept : Operation.dispose ∉ [Operation.define "echo" 1 "return KEYS[1]"] := by simp
  refine ⟨chunk, _, s, hchunk, hrun, ?_, ?_, ?_, ?_⟩
  · have hcall := refusals_of_call rfl hrun ⟨0, 0⟩ "Echo" [.text "k", .nil]
    exact hcall.1 ⟨.nil, by simp, rfl⟩
  · have hcall := refusals_of_call rfl hrun ⟨0, 0⟩ "Echo" [.text "k"]
    obtain ⟨e, after, hbegin, -, hmessage, -⟩ :=
      ((hcall.2 (by simp [Value.isScalar])).2 hkept).1 rfl
    exact ⟨e, after, hbegin, hmessage⟩
  · have hcall := refusals_of_call rfl hrun ⟨0, 0⟩ "echo" []
    obtain ⟨after, hbegin, -⟩ := (((hcall.2 (by simp)).2 hkept).2 1 _ rfl).1 (by decide)
    exact ⟨after, hbegin⟩
  · have hcall := refusals_of_call rfl hrun ⟨0, 0⟩ "echo" [.text "k", .text "v"]
    obtain ⟨env, texts, _, henv, htexts, hsame, hbegin, hbody, -⟩ :=
      (((hcall.2 (by simp [Value.isScalar])).2 hkept).2 1 _ rfl).2 (by decide)
    cases henv
    cases htexts
    cases hsame.symm.trans hchunk
    have hpublishes : (Script.Heap.initial.withChunk chunk).Publishes ["k"] ["v"] :=
      ⟨_, Script.Routine.publish_eq (Script.Heap.accepts_initial _)
        (Script.Heap.accepts_initial _) (by decide) (by decide)⟩
    exact ⟨_, hbegin, hbody hpublishes⟩

/-! ## Calls that are kept from running -/

/-- How many statements a block has that is being run. -/
def Script.Control.statements? : Script.Control → Option Nat
  | .run p => some p.block.length
  | _ => none

/-- A script that lets a function fail whenever `KEYS` is bound. -/
def trapSource : String :=
  "setmetatable(_G, \x7b__newindex = function() error('no keys', 0) end\x7d) KEYS = nil"

/-- A script that would leave a key behind. -/
def markSource : String := "redis.call('SET', 'ran', '1') return 'done'"

/-- The first of these scripts is run, and the second is defined. -/
def trapping : List Operation :=
  [.define "trap" 0 trapSource,
    .invoke ⟨0, 0⟩ "trap" [] (List.replicate 21 (.frozen ⟨0, 0⟩)),
    .define "mark" 0 markSource]

/-- A metatable keeps a script from running that nothing refuses: the call fails, and the body of
the script has not begun at any of its steps. -/
theorem body_kept_from_running :
    let clock := Readings.frozen ⟨0, 0⟩
    ∃ events s, (Store.build .default).history? trapping = some (events, s) ∧
      .dispose ∉ trapping ∧ latest? "mark" events = some (0, markSource) ∧
      ∃ chunk r, Script.Chunk.ofSource markSource = .ok chunk ∧
        s.begin ⟨0, 0⟩ "mark" [] = .running r ∧
        (r.invocation.run (List.replicate 11 clock)).failure? =
          some (.script (.uncaught "no keys")) ∧
        ∀ n, (r.invocation.run (List.replicate n clock)).machine.control ≠
          .run (.start chunk.body .ofBody) := by
  intro clock
  -- the body of the second script has two statements, and the function that fails has one
  have hlength : ((Script.Chunk.ofSource markSource).map fun chunk => chunk.body.length).toOption =
      some 2 := by
    decide +kernel
  obtain ⟨⟨events, s⟩, hrun, hlatest, r, hbegin, hfailure, hcontrol⟩ :
      ∃ h ∈ (Store.build .default).history? trapping, latest? "mark" h.1 = some (0, markSource) ∧
        ∃ r, h.2.begin ⟨0, 0⟩ "mark" [] = .running r ∧
          (r.invocation.run (List.replicate 11 clock)).failure? =
            some (.script (.uncaught "no keys")) ∧
          ∀ n < 12, (r.invocation.run (List.replicate n clock)).machine.control.statements? ≠
            some 2 := by
    decide +kernel
  have hkept : Operation.dispose ∉ trapping := by simp [trapping]
  cases hsource : Script.Chunk.ofSource markSource with
  | error fault =>
    rw [hsource] at hlength
    cases hlength
  | ok chunk =>
    rw [hsource] at hlength
    have hchunk : chunk.body.length = 2 := Option.some.inj hlength
    refine ⟨events, s, hrun, hkept, hlatest, chunk, r, rfl, hbegin, hfailure, fun n hbody => ?_⟩
    have hsmall (m : Nat) (hm : m < 12) :
        (r.invocation.run (List.replicate m clock)).machine.control ≠
          .run (.start chunk.body .ofBody) := by
      intro hstarted
      refine hcontrol m hm ?_
      rw [hstarted]
      exact congrArg some hchunk
    by_cases hn : n < 12
    · exact hsmall n hn hbody
    · -- behind its end the call stays as it is
      have hover : (r.invocation.run (List.replicate 11 clock)).result?.isSome := by
        cases hresult : (r.invocation.run (List.replicate 11 clock)).result? with
        | some result => rfl
        | none =>
          rw [Invocation.failure?, hresult] at hfailure
          cases hfailure
      obtain ⟨more, rfl⟩ : ∃ more, n = 11 + more := ⟨n - 11, by omega⟩
      rw [← List.replicate_append_replicate, Invocation.run_append,
        Invocation.run_of_result? hover] at hbody
      exact hsmall 11 (by decide) hbody

end ScriptStore
