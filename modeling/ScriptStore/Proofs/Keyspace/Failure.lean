import Mathlib
import ScriptStore.Proofs.Keyspace.Effect

/-!
# Failing commands

A command that fails changes nothing that anybody can see. What it may do is drop an expired entry,
which no moment from then on would have shown.

* `Untouched` — nothing that can be seen differs between two keyspaces.
* `Request.sheds_of_run_eq_error` — a request that fails sheds expired entries at most.
* `failed_dispatch_leaves_untouched` — **a failing command leaves the keyspace untouched**.

The readings of the clocks that a command takes may differ; all that is said here holds at the last
of them and from then on.
-/

namespace ScriptStore

open Keyspace

variable {clock : Readings} {now : Moment} {s t : Keyspace} {key : String} {error : Error}

/-- Two keyspaces show the same keys with the same data and deadlines at a moment, and as many; they
have the same client; and the second one holds nothing that the first one does not hold. -/
structure Untouched (now : Moment) (s t : Keyspace) : Prop where
  live? : ∀ key, t.live? now key = s.live? now key
  liveCount : t.liveCount now = s.liveCount now
  clientName : t.clientName = s.clientName
  entries : ∀ (key : String) (e : Entry), t.entries[key]? = some e → s.entries[key]? = some e

theorem Keyspace.Sheds.untouched (h : Sheds now s t) : Untouched now s t :=
  ⟨h.live?_eq, liveCount_eq_of_live?_eq h.live?_eq, h.clientName, fun _ _ => h.entries_of_entries⟩

/-! ## Requests that fail -/

theorem sheds_of_expire_eq_error {span : Span} (now : Moment)
    (h : (s.expire clock key span).1 = .error error) :
    Sheds now s (s.expire clock key span).2 := by
  unfold expire at h ⊢
  split
  · rename_i hpos
    rw [if_pos hpos] at h
    cases h
  · rename_i hpos
    rw [if_neg hpos] at h
    split at h
    · exact .refl now s
    · split at h <;> cases h

section

variable (past : ∀ i, (clock i).nanos ≤ now.nanos)
include past

theorem sheds_lookup_reading (s : Keyspace) (i : Nat) (key : String) :
    Sheds now s (s.lookup (clock i) key).2 :=
  (sheds_lookup s (clock i) key).mono (past i)

theorem sheds_of_increase_eq_error {delta : Int64}
    (h : (s.increase clock key delta).1 = .error error) :
    Sheds now s (s.increase clock key delta).2 := by
  have hs := sheds_lookup_reading past s 0 key
  simp only [increase] at h ⊢
  split at h
  · exact hs
  · split at h
    · exact hs
    · split at h <;> cases h

theorem sheds_of_grow_eq_error {a : Addition} (h : (s.grow clock key a).1 = .error error) :
    Sheds now s (s.grow clock key a).2 := by
  unfold grow at h ⊢
  rcases ensure_cases (clock 0) s key a.fresh with he | he
  · have hs := sheds_lookup_reading past s 1 key
    rw [he] at h ⊢
    split
    · rename_i hl
      rw [hl] at hs
      exact hs
    · rename_i e t hl
      rw [hl] at h hs
      cases hadd : a.add e.data with
      | none => exact hs
      | some grown => simp only [hadd] at h; cases h
  · -- the key holds the empty container now, and that can be added to
    obtain ⟨grown, hadd⟩ := Option.isSome_iff_exists.mp a.add_fresh
    simp only [lookup_eq_of_live? (he (clock 1)), Entry.lasting, hadd] at h
    cases h

/-- **A request that fails sheds expired entries at most.** -/
theorem Request.sheds_of_run_eq_error {r : Request} (h : (r.run clock s).1 = .error error) :
    Sheds now s (r.run clock s).2 := by
  cases r with
  | get key | setSize key | setMembers key | sortedSize key =>
    exact sheds_lookup_reading past s 0 key
  | increase key delta => exact sheds_of_increase_eq_error past h
  | expire key span => exact sheds_of_expire_eq_error now h
  | setAdd key members =>
    simp only [run, setAdd_eq_grow] at h ⊢
    exact sheds_of_grow_eq_error past h
  | sortedAdd key pairs =>
    simp only [run, sortedAdd_eq_grow] at h ⊢
    exact sheds_of_grow_eq_error past h
  | set key value expiry =>
    cases expiry with
    | none => cases h
    | some span =>
      simp only [run, setString] at h ⊢
      split at h
      · exact .refl now s
      · cases h
  | persist key =>
    simp only [run, Keyspace.persist] at h
    split at h <;> cases h
  | remaining key unit =>
    simp only [run, Keyspace.remaining] at h
    split at h <;> cases h
  | ping message => cases message <;> cases h
  | _ => cases h

/-- A command that fails sheds expired entries at most. -/
theorem Keyspace.sheds_of_dispatch_eq_error {name : String} {args : List String}
    (h : (s.dispatch clock name args).1 = .error error) :
    Sheds now s (s.dispatch clock name args).2 := by
  unfold dispatch at h ⊢
  split at h
  · exact .refl now s
  · exact Request.sheds_of_run_eq_error past h

end

/-! ## Scores -/

theorem scoreArgument_eq_error {score : String} {fault : CommandFault}
    (h : Request.scoreArgument score = .error fault) : fault = .notAFloat := by
  unfold Request.scoreArgument at h
  split at h
  · split at h <;> cases h
    rfl
  · cases h; rfl

/-- One score among many that is none spoils them all. -/
theorem scoredMembers_eq_error {pairs : List (String × String)} {score member : String}
    {fault : CommandFault} (mem : (score, member) ∈ pairs)
    (bad : Request.scoreArgument score = .error fault) :
    Request.scoredMembers (pairs.flatMap fun p => [p.1, p.2]) = .error .notAFloat := by
  induction pairs with
  | nil => cases mem
  | cons p pairs ih =>
    simp only [List.flatMap_cons, List.cons_append, List.nil_append, Request.scoredMembers]
    cases hp : Request.scoreArgument p.1 with
    | error f => rw [scoreArgument_eq_error hp]; rfl
    | ok f =>
      rcases List.mem_cons.mp mem with rfl | hmem
      · rw [bad] at hp; cases hp
      · rw [ih hmem]; rfl

theorem length_flatMap_pair (pairs : List (String × String)) :
    (pairs.flatMap fun p => [p.1, p.2]).length = 2 * pairs.length := by
  induction pairs with
  | nil => rfl
  | cons p pairs ih =>
    rw [List.flatMap_cons, List.length_append, ih, List.length_cons]
    simp only [List.length_cons, List.length_nil]
    omega

/-- A command that adds to a sorted set fails if one of its scores is none. -/
theorem ofCall_eq_error_of_score {name : String} {pairs : List (String × String)}
    {score member : String} {fault : CommandFault} (named : Command.ofName? name = some .zadd)
    (mem : (score, member) ∈ pairs) (bad : Request.scoreArgument score = .error fault) :
    Request.ofCall name (key :: pairs.flatMap fun p => [p.1, p.2]) = .error .notAFloat := by
  have hscored := scoredMembers_eq_error mem bad
  cases pairs with
  | nil => cases mem
  | cons p pairs =>
    have hlength := length_flatMap_pair pairs
    have hodd : (pairs.flatMap fun p => [p.1, p.2]).length % 2 = 0 := by omega
    simp only [List.flatMap_cons, List.cons_append, List.nil_append] at hscored ⊢
    have harity : Command.zadd.arity.accepts
        (key :: p.1 :: p.2 :: pairs.flatMap fun p => [p.1, p.2]).length = true := by
      simp [Command.arity, Arity.accepts]
    unfold Request.ofCall
    rw [named]
    simp only [harity, if_true, Request.ofArguments, if_pos hodd, hscored]
    rfl

/-! ## Commands that fail -/

/-- **A failing command leaves the keyspace untouched**: at the last of its readings of the clocks
and at every later moment. One bad score among many pairs is such a failure. -/
theorem failed_dispatch_leaves_untouched (clock : Readings) (now : Moment)
    (past : ∀ i, (clock i).nanos ≤ now.nanos) (s : Keyspace) :
    (∀ name args error, (s.dispatch clock name args).1 = .error error →
      Untouched now s (s.dispatch clock name args).2) ∧
    ∀ name key (pairs : List (String × String)) score member fault,
      Command.ofName? name = some .zadd → (score, member) ∈ pairs →
      Request.scoreArgument score = .error fault →
      let outcome := s.dispatch clock name (key :: pairs.flatMap fun p => [p.1, p.2])
      outcome.1 = .error (.command .notAFloat) ∧ Untouched now s outcome.2 := by
  have hfail : ∀ name args error, (s.dispatch clock name args).1 = .error error →
      Untouched now s (s.dispatch clock name args).2 :=
    fun name args error h => (sheds_of_dispatch_eq_error past h).untouched
  refine ⟨hfail, fun name key pairs score member fault named mem bad => ?_⟩
  have herror : (s.dispatch clock name (key :: pairs.flatMap fun p => [p.1, p.2])).1 =
      .error (.command .notAFloat) := by
    rw [dispatch, ofCall_eq_error_of_score named mem bad]
  exact ⟨herror, hfail _ _ _ herror⟩

/-- A set, and a string that has expired. -/
def staleKeyspace : Keyspace :=
  (Keyspace.empty.insert "s" (.lasting (.set (.ofList ["m"])))).insert "k" ⟨.string "5", some 3⟩

theorem failed_incr_leaves_untouched :
    (∀ i, ((Readings.frozen ⟨7, 7⟩) i).nanos ≤ 7) ∧
      (staleKeyspace.dispatch (.frozen ⟨7, 7⟩) "INCR" ["s"]).1 = .error .wrongType ∧
      Untouched ⟨7, 7⟩ staleKeyspace (staleKeyspace.dispatch (.frozen ⟨7, 7⟩) "INCR" ["s"]).2 := by
  have hpast : ∀ i, ((Readings.frozen ⟨7, 7⟩) i).nanos ≤ 7 := fun _ => Nat.le_refl 7
  have herror : (staleKeyspace.dispatch (.frozen ⟨7, 7⟩) "INCR" ["s"]).1 = .error .wrongType := by
    cbv
  exact ⟨hpast, herror,
    (failed_dispatch_leaves_untouched (.frozen ⟨7, 7⟩) ⟨7, 7⟩ hpast staleKeyspace).1 _ _ _ herror⟩

end ScriptStore
