import ScriptStore.Proofs.Store.Refusals

/-!
# After disposal

Disposal ends scripting for good and touches nothing else. Whatever is asked of a store that has
been disposed of, no script runs, no custom command is defined, and the keys are as if nothing had
been asked about scripts at all.

* `Operation.perform_of_isDisposed` — an operation of a store that has been disposed of has an
  answer, keeps it so, and changes nothing unless it is on keys.
* `Store.history_of_isDisposed` — so does every history; its part on keys is what a store answers
  whatever the state of scripting.
* `disposal_is_final` — **after disposal every definition and every call fails and leaves the store
  as it is, and operations on keys are answered as if those on scripts were left out**.
-/

namespace ScriptStore

variable {s after : Store} {args : List Value}

namespace Store

theorem scripting_of_isDisposed (h : s.isDisposed = true) : s.scripting = .disposed := by
  unfold isDisposed Scripting.isDisposed at h
  split at h
  · assumption
  · cases h

/-- No call of a custom command runs a script in a store that has been disposed of. -/
theorem begin_of_isDisposed (disposed : s.isDisposed = true) (now : Moment) (name : String)
    (args : List Value) : ∃ e, s.begin now name args = .refused e s := by
  cases given : Value.arguments args with
  | error e => exact ⟨e, begin_of_arguments given⟩
  | ok texts =>
    exact ⟨_, begin_of_environment given (Scripting.environment_of_isDisposed disposed)⟩

end Store

/-- An operation of a store that has been disposed of has an answer, and the store stays so. It
changes nothing unless it is on keys. -/
theorem Operation.perform_of_isDisposed (disposed : s.isDisposed = true) (op : Operation) :
    ∃ answer t, op.perform s = some (answer, t) ∧ t.isDisposed = true ∧
      (op.isOnKeys = false → t = s) := by
  cases op with
  | onKeys clock op =>
    refine ⟨(op.perform clock s).1, (op.perform clock s).2, rfl, ?_, nofun⟩
    rwa [Store.isDisposed, KeyOperation.scripting_perform]
  | define name keys source =>
    have hover := Scripting.environment_of_isDisposed disposed
    refine ⟨.error (.lifecycle .disposed), s, ?_, disposed, fun _ => rfl⟩
    rw [perform, performBy, Store.defineBy_of_environment hover]
    rfl
  | invoke now name args clocks =>
    obtain ⟨e, hbegin⟩ := Store.begin_of_isDisposed disposed now name args
    refine ⟨.error e, s, ?_, disposed, fun _ => rfl⟩
    simp only [perform, performBy, hbegin]
  | definedCommands | isDisposed => exact ⟨_, s, rfl, disposed, fun _ => rfl⟩
  | dispose =>
    have hscripting := Store.scripting_of_isDisposed disposed
    refine ⟨_, _, rfl, rfl, fun _ => ?_⟩
    rw [Store.dispose, ← hscripting]

/-- The part of a history that is on keys is what a store answers whatever the state of scripting,
if the store has been disposed of. -/
theorem Store.history_of_isDisposed (disposed : s.isDisposed = true) (ops : List Operation) :
    ∃ events after, s.history? ops = some (events, after) ∧ after.isDisposed = true ∧
      ∀ scripting, (s.withScripting scripting).history? (ops.filter Operation.isOnKeys) =
        some (events.filter (·.operation.isOnKeys), after.withScripting scripting) := by
  induction ops generalizing s with
  | nil => exact ⟨[], s, rfl, disposed, fun _ => rfl⟩
  | cons op ops ih =>
    obtain ⟨answer, t, hperform, ht, hsame⟩ := op.perform_of_isDisposed disposed
    obtain ⟨events, after, hhistory, hafter, hkeys⟩ := ih ht
    refine ⟨⟨op, answer⟩ :: events, after,
      historyBy?_cons_eq_some_iff.mpr ⟨answer, t, events, hperform, hhistory, rfl⟩, hafter,
      fun scripting => ?_⟩
    cases hop : op.isOnKeys with
    | false =>
      rw [List.filter_cons_of_neg (by simp [hop]), List.filter_cons_of_neg (by simp [hop]),
        ← hsame hop]
      exact hkeys scripting
    | true =>
      rw [List.filter_cons_of_pos hop, List.filter_cons_of_pos (by exact hop)]
      cases op with
      | onKeys clock op =>
        have heq : op.perform clock s = (answer, t) := Option.some.inj hperform
        refine historyBy?_cons_eq_some_iff.mpr
          ⟨answer, t.withScripting scripting, _, ?_, hkeys scripting, rfl⟩
        rw [Operation.performBy, KeyOperation.perform_withScripting, heq]
      | _ => cases hop

/-- **Disposal is final and touches scripting only.** Whatever is asked of a store after it has been
disposed of comes to its end. Then the store is still disposed of and has no custom commands; every
definition fails and every call is refused without running a script, both for that reason unless an
argument is no scalar; neither these nor disposing once more changes anything. And the operations on
keys have had the answers that they have without those on scripts, and have left the same keys,
whether the store has been disposed of or not. -/
theorem disposal_is_final (s : Store) (ops : List Operation) :
    ∃ events after, s.dispose.history? ops = some (events, after) ∧
      after.isDisposed = true ∧ after.definedCommands = [] ∧ after.dispose = after ∧
      (∀ name keys source,
        after.define name keys source = (.error (.lifecycle .disposed), after)) ∧
      (∀ now name args, ∃ e, after.begin now name args = .refused e after ∧
        ((∀ v ∈ args, v.isScalar = true) → e = .lifecycle .disposed)) ∧
      ∀ scripting, (s.withScripting scripting).history? (ops.filter Operation.isOnKeys) =
        some (events.filter (·.operation.isOnKeys), after.withScripting scripting) := by
  obtain ⟨events, after, hhistory, hdisposed, hkeys⟩ :=
    Store.history_of_isDisposed (s := s.dispose) rfl ops
  have hscripting := Store.scripting_of_isDisposed hdisposed
  have hover := Scripting.environment_of_isDisposed hdisposed
  refine ⟨events, after, hhistory, hdisposed, ?_, ?_,
    fun name keys source => Store.defineBy_of_environment hover name keys source,
    fun now name args => ?_, hkeys⟩
  · rw [Store.definedCommands, hscripting]
    rfl
  · rw [Store.dispose, ← hscripting]
  · obtain ⟨e, hbegin⟩ := Store.begin_of_isDisposed hdisposed now name args
    refine ⟨e, hbegin, fun hscalars => ?_⟩
    obtain ⟨texts, htexts, -⟩ := Value.exists_arguments_of_scalars hscalars
    rw [Store.begin_of_environment htexts hover] at hbegin
    cases hbegin
    rfl

/-- A definition and a call between two operations on a key. -/
def mixedOperations : List Operation :=
  [.onKeys (.frozen ⟨0, 0⟩) (.set "k" (.text "v")), .define "echo" 1 "return KEYS[1]",
    .invoke ⟨0, 0⟩ "echo" [.text "k"] [], .onKeys (.frozen ⟨0, 0⟩) (.get "k")]

/-- Behind disposal, only the operations on the key are left of them. -/
theorem disposal_leaves_keys :
    ∃ events after, Store.new.dispose.history? mixedOperations = some (events, after) ∧
      after.begin ⟨0, 0⟩ "echo" [.text "k"] = .refused (.lifecycle .disposed) after ∧
      Store.new.history? [.onKeys (.frozen ⟨0, 0⟩) (.set "k" (.text "v")),
          .onKeys (.frozen ⟨0, 0⟩) (.get "k")] =
        some (events.filter (·.operation.isOnKeys), after.withScripting .unused) := by
  obtain ⟨events, after, hhistory, -, -, -, -, hcall, hkeys⟩ :=
    disposal_is_final Store.new mixedOperations
  obtain ⟨e, hbegin, hlifecycle⟩ := hcall ⟨0, 0⟩ "echo" [.text "k"]
  have hscalars : ∀ v ∈ [Value.text "k"], v.isScalar = true := by simp [Value.isScalar]
  rw [hlifecycle hscalars] at hbegin
  exact ⟨events, after, hhistory, hbegin, hkeys .unused⟩

end ScriptStore
