import Mathlib
import ScriptStore.Proofs.Custom.Issued
import ScriptStore.Proofs.Keyspace.Contents
import ScriptStore.Proofs.Store.History

/-!
# What stores come to hold

No operation of a store leaves a container without members, or a score that is no number: a call of a
custom command does to the keyspace what the commands do that its script issues, and of commands
`Keyspace.Sound.dispatch` says it.

* `Keyspace.Sound.replay` — a run of commands leaves a sound keyspace sound.
* `Keyspace.Reached` — the keyspaces that a store comes to have, those on the way of a call included.
* `containers_have_members` — **every keyspace that is reached is sound**, and stays so.
-/

namespace ScriptStore

variable {s t after : Store} {op : Operation} {ops : List Operation} {events : List Event}
  {keyspace : Keyspace} {options : Options}

/-! ## Commands in a row -/

namespace Keyspace.Sound

theorem replay (sound : keyspace.Sound) (commands : List Issued) :
    (keyspace.replay commands).Sound := by
  induction commands generalizing keyspace with
  | nil => exact sound
  | cons c commands ih => exact ih (sound.dispatch c.clock c.name c.args)

/-- A script leaves a sound keyspace sound at each of its points. -/
theorem script {i : Invocation} (sound : i.keyspace.Sound) (clocks : List Readings) :
    (i.run clocks).keyspace.Sound := by
  rw [Invocation.keyspace_run_ran]
  exact sound.replay _

end Keyspace.Sound

/-! ## Operations -/

theorem Store.sound_command (sound : s.keyspace.Sound) (clock : Readings) (name : String)
    (args : List Value) : (s.command clock name args).2.keyspace.Sound := by
  unfold command
  split
  · exact sound
  · exact sound.dispatch clock name _

theorem KeyOperation.sound_perform (sound : s.keyspace.Sound) (clock : Readings)
    (op : KeyOperation) : (op.perform clock s).2.keyspace.Sound := by
  cases op with
  | dispatch name args => exact sound.dispatch clock name args
  | size | isEmpty => exact sound
  | _ => exact s.sound_command sound clock _ _

/-- **Every operation leaves a sound keyspace sound.** -/
theorem Operation.sound_perform {answer : Except Error Given} (sound : s.keyspace.Sound)
    (h : op.perform s = some (answer, t)) : t.keyspace.Sound := by
  cases op with
  | onKeys clock op =>
    have ht : t = (op.perform clock s).2 := congrArg Prod.snd (Option.some.inj h).symm
    rw [ht]
    exact KeyOperation.sound_perform sound clock op
  | define name keys source =>
    cases h
    exact sound
  | invoke now name args clocks =>
    rcases after_invoke h with (rfl | ⟨-, rfl⟩) | ⟨env, d, texts, -, rfl⟩
    · exact sound
    · exact sound
    · exact Keyspace.Sound.script sound clocks
  | definedCommands | isDisposed | dispose =>
    cases h
    exact sound

/-! ## Histories -/

/-- A keyspace that a store comes to have that is made with the options: after a history, or at a
point on the way of a call of a custom command. -/
inductive Keyspace.Reached (options : Options) : Keyspace → Prop where
  | history {ops : List Operation} {events : List Event} {after : Store}
    (run : (Store.build options).history? ops = some (events, after)) :
    Reached options after.keyspace
  | call {ops : List Operation} {events : List Event} {after : Store} {now : Moment} {name : String}
    {args : List Value} {r : Running}
    (run : (Store.build options).history? ops = some (events, after))
    (begun : after.begin now name args = .running r) (clocks : List Readings) :
    Reached options (r.run clocks).invocation.keyspace

theorem Store.sound_history? (run : (build options).history? ops = some (events, after)) :
    after.keyspace.Sound := by
  let sound : List Event → Store → Prop := fun _ t => t.keyspace.Sound
  have hstep (past : List Event) (t : Store) (op : Operation) (answer : Except Error Given)
      (u : Store) (h : sound past t) (hperform : op.perform t = some (answer, u)) :
      sound (past ++ [⟨op, answer⟩]) u := Operation.sound_perform h hperform
  have hsound : sound events after := of_historyBy? Keyspace.Sound.empty hstep run
  exact hsound

theorem Keyspace.sound_of_reached (reached : keyspace.Reached options) : keyspace.Sound := by
  cases reached with
  | history run => exact Store.sound_history? run
  | call run begun clocks =>
    rw [Running.run_eq]
    refine Keyspace.Sound.script ?_ clocks
    rw [(Store.start_of_begin begun).1]
    exact Store.sound_history? run

/-- **No store comes to hold a container without members, or a score that is no number.** The next
command leaves none either, whatever it is, and whether it fails or not. So the size of a container
is positive exactly if its key is there: the size of one that holds the right type, as long as it
can be told, and the size of one that is not there. -/
theorem containers_have_members (reached : keyspace.Reached options) :
    keyspace.Sound ∧
      (∀ clock name args, (keyspace.dispatch clock name args).2.Sound) ∧
      ∀ clock command size exist key, Command.ofName? size = some command →
        command = .scard ∨ command = .zcard → Command.ofName? exist = some .exist →
        (∀ e, keyspace.live? (clock 0) key = some e →
          ∃ n, e.data.memberCount? command = some n ∧ n < 2 ^ 63) →
        ∃ n : Int64, (keyspace.dispatch clock size [key]).1 = .ok (.integer n) ∧
          (0 < n ↔ (keyspace.dispatch clock exist [key]).1 = .ok (.integer 1)) := by
  have hsound := Keyspace.sound_of_reached reached
  refine ⟨hsound, hsound.dispatch, fun clock command size exist key sized counts asked fits => ?_⟩
  exact Keyspace.Sound.sizes hsound sized counts asked fits

/-- Additions of which two fail: the first has a score that is no number, the last meets a sorted
set. -/
def someFailing : List Operation :=
  let clock := Readings.frozen ⟨0, 0⟩
  [.onKeys clock (.dispatch "zadd" ["scores", "1", "a", "-NaN", "b"]),
    .onKeys clock (.dispatch "ZADD" ["scores", "1.5", "a"]),
    .onKeys clock (.dispatch "SADD" ["scores", "a"])]

/-- After additions of which two have failed, there is one sorted set, and it has a member. -/
theorem containers_have_members_after_failures :
    ∃ events after, (Store.build .default).history? someFailing = some (events, after) ∧
      events.map (fun e => e.answer.isOk) = [false, true, false] ∧ after.keyspace.Sound ∧
      ∃ n : Int64, (after.keyspace.dispatch (.frozen ⟨0, 0⟩) "zcard" ["scores"]).1 =
          .ok (.integer n) ∧
        (0 < n ↔ (after.keyspace.dispatch (.frozen ⟨0, 0⟩) "Exists" ["scores"]).1 =
          .ok (.integer 1)) := by
  obtain ⟨⟨events, after⟩, hrun, hanswers, hcount⟩ :
      ∃ h ∈ (Store.build .default).history? someFailing,
        h.1.map (fun e => e.answer.isOk) = [false, true, false] ∧
        (h.2.keyspace.live? ⟨0, 0⟩ "scores").map (fun e => e.data.memberCount? .zcard) =
          some (some 1) := by
    decide +kernel
  obtain ⟨hsound, -, hsizes⟩ := containers_have_members (.history hrun)
  refine ⟨events, after, hrun, hanswers, hsound, ?_⟩
  refine hsizes (.frozen ⟨0, 0⟩) .zcard "zcard" "Exists" "scores" (by decide) (.inr rfl) (by decide)
    fun e he => ⟨1, ?_, by decide⟩
  have hlive : after.keyspace.live? ⟨0, 0⟩ "scores" = some e := he
  rw [hlive] at hcount
  exact Option.some.inj hcount

end ScriptStore
