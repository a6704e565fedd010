import Mathlib
import ScriptStore.Proofs.Keyspace.Contents
import ScriptStore.Proofs.Keyspace.Counter
import ScriptStore.Proofs.Keyspace.Readings
import ScriptStore.Proofs.Text.Order

/-!
# Containers are finite sets

A set and a sorted set differ in what they keep for a member. In how they grow and in how they are
counted they are the same: a finite set of texts.

* `Container.members?` — the members of data; `Addition.Gives` — an addition makes texts members, and
  counts those that were none.
* `Issued.added?` — the members that a command adds to a key, which are all its arguments after the
  key for a set (`Issued.added?_sadd`) and every other one for a sorted set (`Issued.added?_zadd`);
  `membersGiven` — all that commands in a row add.
* `Issued.Spares`, `Keyspace.OnlyGrows` — commands that neither overwrite a key nor delete it, one
  after the other, while it does not expire.
* `Keyspace.OnlyGrows.members?_replay` — **a key that only grows holds what has been given**.
* `containers_are_finite_sets` — **its members are listed in order, counted, and are as many as the
  additions have reported**.
-/

namespace ScriptStore

open Keyspace

variable {clock : Readings} {now start : Moment} {s t : Keyspace} {key name : String} {e : Entry}
  {r : Request} {c : Issued} {commands first second : List Issued} {kind : Container}
  {old given : Finset String}

/-! ## Members -/

/-- The kinds of containers. -/
inductive Container where
  | set
  | sortedSet
  deriving DecidableEq

namespace Container

/-- The command that counts the members. -/
def size : Container → Command
  | set => .scard
  | sortedSet => .zcard

/-- The members of data, if they are a container of the kind. -/
def members? : Container → Data → Option (Finset String)
  | set, .set members => some members.toList.toFinset
  | sortedSet, .sortedSet scores => some scores.keys.toFinset
  | _, _ => none

end Container

theorem nodup_members (members : Std.TreeSet String) : members.toList.Nodup :=
  Std.TreeSet.distinct_toList.imp fun h heq => h (Std.LawfulEqCmp.compare_eq_iff_eq.mpr heq)

theorem card_members (members : Std.TreeSet String) :
    members.toList.toFinset.card = members.size := by
  rw [List.toFinset_card_of_nodup (nodup_members members), Std.TreeSet.length_toList]

theorem card_scores (scores : Std.TreeMap String Float) :
    scores.keys.toFinset.card = scores.size := by
  rw [List.toFinset_card_of_nodup Std.TreeMap.nodup_keys, Std.TreeMap.length_keys]

/-- A container is counted by its members. -/
theorem memberCount?_of_members? {data : Data} (h : kind.members? data = some old) :
    data.memberCount? kind.size = some old.card := by
  unfold Container.members? at h
  split at h
  · rename_i members
    cases h
    rw [card_members]
    rfl
  · rename_i scores
    cases h
    rw [card_scores]
    rfl
  · cases h

/-! ## Additions -/

/-- An addition gives members to containers of a kind, and counts those that were not there. -/
structure Addition.Gives (a : Addition) (kind : Container) (given : Finset String) : Prop where
  fresh : kind.members? a.fresh = some ∅
  add : ∀ data old, kind.members? data = some old →
    ∃ grown, a.add data = some ((given \ old).card, grown) ∧
      kind.members? grown = some (old ∪ given)

/-- What is new is what the union has more. -/
theorem card_sdiff_eq_sub (old given : Finset String) :
    (given \ old).card = (old ∪ given).card - old.card := by
  rw [← Finset.card_sdiff_of_subset Finset.subset_union_left, Finset.union_sdiff_left]

theorem Addition.gives_members (members : List String) :
    (Addition.members members).Gives .set members.toFinset := by
  refine ⟨rfl, fun data old h => ?_⟩
  cases data with
  | set tree =>
    cases h
    have hunion : (tree.insertMany members).toList.toFinset =
        tree.toList.toFinset ∪ members.toFinset := by
      ext member
      simp [Std.TreeSet.mem_insertMany_list]
    refine ⟨.set (tree.insertMany members), ?_, by rw [Container.members?, hunion]⟩
    rw [card_sdiff_eq_sub, ← hunion, card_members, card_members]
    rfl
  | _ => cases h

theorem Addition.gives_scores (pairs : List (Float × String)) :
    (Addition.scores pairs).Gives .sortedSet (pairs.map Prod.snd).toFinset := by
  refine ⟨rfl, fun data old h => ?_⟩
  cases data with
  | sortedSet tree =>
    cases h
    have hunion : (tree.insertMany (pairs.map fun pair => (pair.2, pair.1))).keys.toFinset =
        tree.keys.toFinset ∪ (pairs.map Prod.snd).toFinset := by
      ext member
      simp [Std.TreeMap.mem_insertMany_list]
    refine ⟨.sortedSet (tree.insertMany (pairs.map fun pair => (pair.2, pair.1))), ?_,
      by rw [Container.members?, hunion]⟩
    rw [card_sdiff_eq_sub, ← hunion, card_scores, card_scores]
    rfl
  | _ => cases h

/-! ## What a key holds -/

/-- The members that a moment shows under a key, none if the key is not there. Data of another kind
have no members. -/
def Keyspace.members? (kind : Container) (start : Moment) (key : String) (s : Keyspace) :
    Option (Finset String) :=
  match s.live? start key with
  | none => some ∅
  | some e => kind.members? e.data

/-- What is live under a key at a start lasts for all readings of a command, and none of these is
earlier. -/
structure Keyspace.Lasts (s : Keyspace) (start : Moment) (key : String) (clock : Readings) :
    Prop where
  since : ∀ i, start.nanos ≤ (clock i).nanos
  unexpired : ∀ i e, s.live? start key = some e → e.expired (clock i) = false

namespace Keyspace

theorem members?_congr (h : t.live? start key = s.live? start key) :
    t.members? kind start key = s.members? kind start key := by
  rw [members?, h, members?]

theorem members?_insert (live : e.expired start = false) :
    (s.insert key e).members? kind start key = kind.members? e.data := by
  rw [members?, live?_insert live, if_pos rfl]

namespace Lasts

variable (lasts : s.Lasts start key clock)
include lasts

/-- All readings show the same under the key as the start does. -/
theorem live?_eq (i : Nat) : s.live? (clock i) key = s.live? start key := by
  cases hlive : s.live? start key with
  | none => exact live?_eq_none_mono (lasts.since i) hlive
  | some e =>
    exact live?_eq_some_iff.mpr ⟨(live?_eq_some_iff.mp hlive).1, lasts.unexpired i e hlive⟩

theorem members?_of_leavesAt (h : LeavesAt key clock s t) :
    t.members? kind start key = s.members? kind start key := by
  refine members?_congr ?_
  rcases h with hsame | ⟨hdropped, i, hgone⟩
  · exact live?_congr hsame
  · rw [← lasts.live?_eq i, hgone, live?, hdropped, Option.filter_none]

/-- **An addition to a key that holds a container succeeds**, counts what is new, and makes it
members. -/
theorem grow {a : Addition} (gives : a.Gives kind given)
    (h : s.members? kind start key = some old) :
    (s.grow clock key a).1 = .ok (.count (given \ old).card) ∧
      (s.grow clock key a).2.members? kind start key = some (old ∪ given) := by
  unfold members? at h
  cases hlive : s.live? start key with
  | none =>
    -- the empty container that is put in place is found at once, and grows
    rw [hlive] at h
    cases h
    obtain ⟨grown, hadd, hgrown⟩ := gives.add a.fresh ∅ gives.fresh
    have hfirst : s.live? (clock 0) key = none := by rw [lasts.live?_eq 0, hlive]
    rw [Keyspace.grow, ensure_of_live?_none hfirst, lookup_eq_of_live? (live?_insert_self ..)]
    simp only [Entry.lasting, hadd, true_and]
    rw [members?_insert rfl, hgrown]
  | some e =>
    rw [hlive] at h
    obtain ⟨grown, hadd, hgrown⟩ := gives.add e.data old h
    have hfirst : s.live? (clock 0) key = some e := by rw [lasts.live?_eq 0, hlive]
    have hsecond : s.live? (clock 1) key = some e := by rw [lasts.live?_eq 1, hlive]
    rw [Keyspace.grow, ensure_of_live? hfirst, lookup_eq_of_live? hsecond]
    simp only [hadd, true_and]
    have hlasting : { e with data := grown }.expired start = false :=
      (expired_of_live? hlive :)
    rw [members?_insert hlasting, hgrown]

/-- A new deadline that lies ahead leaves a key its members. -/
theorem members?_expire {span : Span} (pos : 0 < span.amount) :
    (s.expire clock key span).2.members? kind start key = s.members? kind start key := by
  rw [Keyspace.expire, if_neg (Int64.not_le.mpr pos)]
  cases hdeadline : span.deadline? (clock 0) with
  | none => rfl
  | some deadline =>
    cases hlive : s.live? start key with
    | none =>
      have hgone : s.live? (clock 1) key = none := by rw [lasts.live?_eq 1, hlive]
      rw [lookup_eq_of_live?_none hgone]
      exact lasts.members?_of_leavesAt (.lookup s clock 1 key key)
    | some e =>
      have hfound : s.live? (clock 1) key = some e := by rw [lasts.live?_eq 1, hlive]
      have hlt := Span.lt_of_deadline? pos hdeadline
      have hlasting : { e with deadline := some deadline }.expired start = false := by
        simpa [Entry.expired] using (lasts.since 0).trans_lt hlt
      rw [lookup_eq_of_live? hfound]
      simp only
      rw [members?_insert hlasting, members?, hlive]

/-- Taking the deadline from a key leaves it its members. -/
theorem members?_persist :
    (s.persist clock key).2.members? kind start key = s.members? kind start key := by
  have hleaves : (s.lookup (clock 0) key).2.members? kind start key = s.members? kind start key :=
    lasts.members?_of_leavesAt (.lookup s clock 0 key key)
  unfold Keyspace.persist
  split
  · rename_i data deadline t hlookup
    have hfound : s.live? start key = some ⟨data, some deadline⟩ := by
      rw [← lasts.live?_eq 0, ← lookup_fst, hlookup]
    rw [members?_insert (Entry.expired_lasting data start), members?, hfound, Entry.lasting]
  · rename_i heq
    rwa [heq] at hleaves

end Lasts

end Keyspace

/-! ## Failing requests -/

/-- **A failing request leaves every key alone**, but for dropping what has expired at one of its
readings. -/
theorem Request.leavesAt_of_error {error : Error} (h : (r.run clock s).1 = .error error)
    (key : String) : LeavesAt key clock s (r.run clock s).2 := by
  -- the request takes finitely many readings, so there is a last one
  let n := r.readings clock s
  obtain ⟨last, -, hlast⟩ :=
    (Finset.range (n + 1)).exists_max_image (fun i => (clock i).nanos) ⟨0, by simp⟩
  let taken : Readings := fun i => clock (min i n)
  have hsame : r.run clock s = r.run taken s :=
    run_congr fun i hi => congrArg clock (Nat.min_eq_left hi.le).symm
  have past : ∀ i, (taken i).nanos ≤ (clock last).nanos := fun i => hlast (min i n) (by simp)
  rw [hsame] at h ⊢
  rcases (sheds_of_run_eq_error past h).entries key with hkept | ⟨hdropped, hgone⟩
  · exact .inl hkept
  · exact .inr ⟨hdropped, last, hgone⟩

/-! ## Commands that let a key grow -/

/-- The members that a request adds to a key. -/
def Request.added? (kind : Container) (key : String) : Request → Option (List String)
  | .setAdd key' members => if kind = .set ∧ key' = key then some members else none
  | .sortedAdd key' pairs =>
    if kind = .sortedSet ∧ key' = key then some (pairs.map Prod.snd) else none
  | _ => none

/-- A request that neither overwrites nor deletes a container of the kind. It may add to it, and set
a deadline that lies ahead. -/
def Request.Spares (kind : Container) (key : String) : Request → Prop
  | .set key' _ _ | .increase key' _ => key' ≠ key
  | .setAdd key' _ => key' = key → kind = .set
  | .sortedAdd key' _ => key' = key → kind = .sortedSet
  | .expire key' span => key' = key → 0 < span.amount
  | .del keys => key ∉ keys
  | .clear => False
  | _ => True

namespace Issued

/-- The members that a command adds to a key. -/
def added? (kind : Container) (key : String) (c : Issued) : Option (List String) :=
  (Request.ofCall c.name c.args).toOption.bind (Request.added? kind key)

/-- A command that neither overwrites nor deletes a container of the kind, or that fails. -/
def Spares (kind : Container) (key : String) (s : Keyspace) (c : Issued) : Prop :=
  (∀ r, Request.ofCall c.name c.args = .ok r → r.Spares kind key) ∨ (c.outcome s).1.isOk = false

end Issued

/-- All members that commands add to a key. -/
def membersGiven (kind : Container) (key : String) (commands : List Issued) : Finset String :=
  (commands.flatMap fun c => (c.added? kind key).getD []).toFinset

/-- The members of a set are all arguments after the key. -/
theorem Issued.added?_sadd {members : List String} (named : Command.ofName? name = some .sadd)
    (ne : members ≠ []) : (⟨clock, name, key :: members⟩ : Issued).added? .set key = some members := by
  cases members with
  | nil => exact absurd rfl ne
  | cons first rest =>
    have hcall : Request.ofCall name (key :: first :: rest) = .ok (.setAdd key (first :: rest)) := by
      simp [Request.ofCall, named, Command.arity, Arity.accepts, Request.ofArguments]
    simp [added?, hcall, Except.toOption, Request.added?]

theorem Request.map_snd_of_scoredMembers {pairs : List (String × String)}
    {scores : List (Float × String)}
    (h : scoredMembers (pairs.flatMap fun pair => [pair.1, pair.2]) = .ok scores) :
    scores.map Prod.snd = pairs.map Prod.snd := by
  induction pairs generalizing scores with
  | nil =>
    cases h
    rfl
  | cons pair pairs ih =>
    obtain ⟨score, -, h⟩ := exists_of_bind_eq_ok h
    obtain ⟨rest, hrest, h⟩ := exists_of_bind_eq_ok h
    cases h
    rw [List.map_cons, ih hrest, List.map_cons]

/-- The members of a sorted set are every other argument after the key, if the ones before them are
scores. -/
theorem Issued.added?_zadd {pairs : List (String × String)} {scores : List (Float × String)}
    (named : Command.ofName? name = some .zadd) (ne : pairs ≠ [])
    (scored : Request.scoredMembers (pairs.flatMap fun pair => [pair.1, pair.2]) = .ok scores) :
    (⟨clock, name, key :: pairs.flatMap fun pair => [pair.1, pair.2]⟩ : Issued).added?
      .sortedSet key = some (pairs.map Prod.snd) := by
  cases pairs with
  | nil => exact absurd rfl ne
  | cons pair pairs =>
    have hcall : Request.ofCall name (key :: (pair :: pairs).flatMap fun pair => [pair.1, pair.2]) =
        .ok (.sortedAdd key scores) := by
      have heven : (pairs.flatMap fun pair => [pair.1, pair.2]).length % 2 = 0 := by
        rw [length_flatMap_pair, Nat.mul_mod_right]
      simp only [List.flatMap_cons, List.cons_append, List.nil_append] at scored ⊢
      simp only [Request.ofCall, named, Command.arity, Arity.accepts, List.length_cons,
        Request.ofArguments, heven, if_true, scored]
      simp [bind, Except.bind, pure, Except.pure]
    rw [added?]
    simp only [hcall, Except.toOption, Option.bind_some, Request.added?, and_self, if_true]
    rw [Request.map_snd_of_scoredMembers scored]

/-- A request that adds to a key is an addition. -/
theorem Request.exists_grow_of_added? {added : List String} (h : r.added? kind key = some added) :
    ∃ a : Addition, a.Gives kind added.toFinset ∧ ∀ clock s, r.run clock s = s.grow clock key a := by
  cases r with
  | setAdd key' members =>
    obtain ⟨⟨rfl, rfl⟩, heq⟩ := Option.ite_none_right_eq_some.mp h
    cases heq
    exact ⟨.members _, Addition.gives_members _, fun clock s => setAdd_eq_grow ..⟩
  | sortedAdd key' pairs =>
    obtain ⟨⟨rfl, rfl⟩, heq⟩ := Option.ite_none_right_eq_some.mp h
    cases heq
    exact ⟨.scores pairs, Addition.gives_scores pairs, fun clock s => sortedAdd_eq_grow ..⟩
  | _ => cases h

/-- A request that spares a key and adds nothing to it leaves it its members. -/
theorem Request.members?_run (spares : r.Spares kind key) (h : r.added? kind key = none)
    (lasts : s.Lasts start key clock) :
    (r.run clock s).2.members? kind start key = s.members? kind start key := by
  rcases r.leaves_or_writesTo key with ⟨only, hr⟩ | writes
  · exact lasts.members?_of_leavesAt (leavesAt_run only hr clock s)
  cases writes with
  | set | increase => exact absurd rfl spares
  | setAdd members => simp [added?, spares rfl] at h
  | sortedAdd pairs => simp [added?, spares rfl] at h
  | expire span => exact lasts.members?_expire (spares rfl)
  | persist => exact lasts.members?_persist
  | del mem => exact absurd mem spares
  | clear => exact spares.elim

/-! ## One command -/

namespace Issued

theorem added?_of_ofCall (h : Request.ofCall c.name c.args = .ok r) :
    c.added? kind key = r.added? kind key := by
  rw [added?, h]
  rfl

theorem spares_of_ofCall (h : Request.ofCall c.name c.args = .ok r) (spares : r.Spares kind key) :
    c.Spares kind key s := by
  refine .inl fun r' h' => ?_
  rw [h] at h'
  cases h'
  exact spares

/-- **A command that adds to a key succeeds**, counts what is new, and makes it members. -/
theorem outcome_of_added? {added : List String} (h : c.added? kind key = some added)
    (lasts : s.Lasts start key c.clock) (holds : s.members? kind start key = some old) :
    (c.outcome s).1 = .ok (.count (added.toFinset \ old).card) ∧
      (c.outcome s).2.members? kind start key = some (old ∪ added.toFinset) := by
  cases hcall : Request.ofCall c.name c.args with
  | error fault =>
    rw [added?, hcall] at h
    cases h
  | ok r =>
    rw [added?_of_ofCall hcall] at h
    obtain ⟨a, gives, hgrow⟩ := Request.exists_grow_of_added? h
    rw [outcome_of_ofCall hcall, hgrow]
    exact lasts.grow gives holds

/-- A command that spares a key and adds nothing to it leaves it its members. -/
theorem members?_outcome (spares : c.Spares kind key s) (h : c.added? kind key = none)
    (lasts : s.Lasts start key c.clock) :
    (c.outcome s).2.members? kind start key = s.members? kind start key := by
  cases hcall : Request.ofCall c.name c.args with
  | error fault => rw [outcome, dispatch, hcall]
  | ok r =>
    rw [added?_of_ofCall hcall] at h
    unfold Spares at spares
    rw [outcome_of_ofCall hcall] at spares ⊢
    rcases spares with spares | failed
    · exact Request.members?_run (spares r hcall) h lasts
    · cases hreply : (r.run c.clock s).1 with
      | ok v => simp [hreply, Except.isOk, Except.toBool] at failed
      | error error =>
        exact lasts.members?_of_leavesAt (Request.leavesAt_of_error hreply key)

end Issued

/-! ## Commands in a row -/

namespace Keyspace

/-- Commands in a row that spare a key, while what it holds does not expire. -/
def OnlyGrows (kind : Container) (start : Moment) (key : String) : Keyspace → List Issued → Prop
  | _, [] => True
  | s, c :: rest => s.Lasts start key c.clock ∧ c.Spares kind key s ∧
    (c.outcome s).2.OnlyGrows kind start key rest

/-- The replies to those commands that add to a key, in order. -/
def additionReplies (kind : Container) (key : String) :
    Keyspace → List Issued → List (Except Error Value)
  | _, [] => []
  | s, c :: rest =>
    let replies := (c.outcome s).2.additionReplies kind key rest
    if (c.added? kind key).isSome then (c.outcome s).1 :: replies else replies

end Keyspace

theorem membersGiven_cons (kind : Container) (key : String) (c : Issued) (rest : List Issued) :
    membersGiven kind key (c :: rest) =
      ((c.added? kind key).getD []).toFinset ∪ membersGiven kind key rest := by
  rw [membersGiven, List.flatMap_cons, List.toFinset_append, membersGiven]

namespace Keyspace.OnlyGrows

theorem of_append (grows : s.OnlyGrows kind start key (first ++ second)) :
    s.OnlyGrows kind start key first ∧ (s.replay first).OnlyGrows kind start key second := by
  induction first generalizing s with
  | nil => exact ⟨trivial, grows⟩
  | cons c rest ih =>
    obtain ⟨lasts, spares, hrest⟩ := grows
    obtain ⟨hfirst, hsecond⟩ := ih hrest
    exact ⟨⟨lasts, spares, hfirst⟩, hsecond⟩

/-- One command more, and its members are there too. -/
theorem members?_cons {rest : List Issued} (grows : s.OnlyGrows kind start key (c :: rest))
    (holds : s.members? kind start key = some old) :
    (c.outcome s).2.members? kind start key =
      some (old ∪ ((c.added? kind key).getD []).toFinset) := by
  obtain ⟨lasts, spares, -⟩ := grows
  cases hadded : c.added? kind key with
  | none =>
    rw [Issued.members?_outcome spares hadded lasts, holds]
    simp
  | some added => exact (Issued.outcome_of_added? hadded lasts holds).2

/-- **A key that only grows holds what has been given.** -/
theorem members?_replay (grows : s.OnlyGrows kind start key commands)
    (holds : s.members? kind start key = some old) :
    (s.replay commands).members? kind start key =
      some (old ∪ membersGiven kind key commands) := by
  induction commands generalizing s old with
  | nil =>
    rw [replay, List.foldl_nil, holds]
    simp [membersGiven]
  | cons c rest ih =>
    rw [replay_cons, ih grows.2.2 (grows.members?_cons holds), membersGiven_cons,
      Finset.union_assoc]

/-- **The replies to the additions sum up** to the number of members that are new at the end. -/
theorem exists_counts (grows : s.OnlyGrows kind start key commands)
    (holds : s.members? kind start key = some old) :
    ∃ counts : List Nat,
      s.additionReplies kind key commands = counts.map (fun n => .ok (.count n)) ∧
      counts.sum + old.card = (old ∪ membersGiven kind key commands).card := by
  induction commands generalizing s old with
  | nil => exact ⟨[], rfl, by simp [membersGiven]⟩
  | cons c rest ih =>
    obtain ⟨counts, hreplies, hsum⟩ := ih grows.2.2 (grows.members?_cons holds)
    rw [Finset.union_assoc, ← membersGiven_cons] at hsum
    cases hadded : c.added? kind key with
    | none =>
      refine ⟨counts, ?_, ?_⟩
      · simp [additionReplies, hadded, hreplies]
      · simpa [hadded] using hsum
    | some added =>
      have hreply := (Issued.outcome_of_added? hadded grows.1 holds).1
      have hcard : (added.toFinset \ old).card + old.card = (old ∪ added.toFinset).card := by
        rw [Finset.card_sdiff_add_card, Finset.union_comm]
      refine ⟨(added.toFinset \ old).card :: counts, ?_, ?_⟩
      · simp [additionReplies, hadded, hreplies, hreply]
      · rw [hadded, Option.getD_some, ← hcard] at hsum
        rw [List.sum_cons, ← hsum]
        omega

end Keyspace.OnlyGrows

/-! ## What is read -/

namespace Keyspace.Lasts

variable (lasts : s.Lasts start key clock)
include lasts

theorem reply_size (sized : Command.ofName? name = some kind.size)
    (holds : s.members? kind start key = some old) :
    (s.dispatch clock name [key]).1 = .ok (.count old.card) := by
  unfold members? at holds
  cases hlive : s.live? start key with
  | none =>
    rw [hlive] at holds
    cases holds
    have hgone : s.live? (clock 0) key = none := by rw [lasts.live?_eq 0, hlive]
    have hcounts : kind.size = .scard ∨ kind.size = .zcard := by
      cases kind
      · exact .inl rfl
      · exact .inr rfl
    exact reply_size_of_none sized hcounts hgone
  | some e =>
    rw [hlive] at holds
    have hfound : s.live? (clock 0) key = some e := by rw [lasts.live?_eq 0, hlive]
    exact reply_size_of_live? sized hfound (memberCount?_of_members? holds)

/-- The members of a set are listed in the order of their bytes, each once. -/
theorem reply_members (listed : Command.ofName? name = some .smembers)
    (holds : s.members? .set start key = some old) :
    ∃ members : List String, (s.dispatch clock name [key]).1 =
        .ok (.sequence (members.map .text)) ∧
      members.Pairwise (fun a b => Utf8.encode a < Utf8.encode b) ∧ members.toFinset = old ∧
      members.length = old.card := by
  have hreply : (s.dispatch clock name [key]).1 =
      Data.membersReply ((s.live? start key).map Entry.data) := by
    simp [dispatch, Request.ofCall, listed, Command.arity, Arity.accepts, Request.ofArguments,
      Request.run, read, lasts.live?_eq 0]
  unfold members? at holds
  rw [hreply]
  cases hlive : s.live? start key with
  | none =>
    rw [hlive] at holds
    cases holds
    exact ⟨[], rfl, .nil, rfl, rfl⟩
  | some e =>
    obtain ⟨data, deadline⟩ := e
    rw [hlive] at holds
    cases data with
    | set tree =>
      cases holds
      have hordered : tree.toList.Pairwise fun a b => compare a b = .lt :=
        Std.TreeSet.ordered_toList
      refine ⟨tree.toList, rfl, ?_, rfl, ?_⟩
      · exact hordered.imp fun {a b} h => Utf8.encode_lt (compareOfLessAndEq_eq_lt.mp h)
      · rw [List.toFinset_card_of_nodup (nodup_members tree)]
    | _ => cases holds

end Keyspace.Lasts

/-- **Containers are finite sets.** Let a key be missing, and let commands follow that neither
overwrite nor delete it, nor set a deadline that is reached in between; they may add members to it,
do anything to other keys, and fail.

* Each command that adds to the key succeeds, and replies how many distinct members of its list have
  not been given before, whatever scores they get.
* These replies sum up to the number of all members that have been given.
* That number is the size of the container.
* The members of a set are listed in the strictly increasing order of their bytes. -/
theorem containers_are_finite_sets {kind : Container} {s : Keyspace} {start : Moment} {key : String}
    {commands : List Issued} (missing : s.live? start key = none)
    (grows : s.OnlyGrows kind start key commands) :
    let t := s.replay commands
    let members := membersGiven kind key commands
    (∀ before c after, commands = before ++ c :: after →
      ∀ added, c.added? kind key = some added → (c.outcome (s.replay before)).1 =
        .ok (.count (added.toFinset \ membersGiven kind key before).card)) ∧
    (∃ counts : List Nat,
      s.additionReplies kind key commands = counts.map (fun n => .ok (.count n)) ∧
      counts.sum = members.card) ∧
    ∀ clock, t.Lasts start key clock →
      (∀ size, Command.ofName? size = some kind.size →
        (t.dispatch clock size [key]).1 = .ok (.count members.card)) ∧
      (kind = .set → ∀ list, Command.ofName? list = some .smembers →
        ∃ texts : List String, (t.dispatch clock list [key]).1 =
            .ok (.sequence (texts.map .text)) ∧
          texts.Pairwise (fun a b => Utf8.encode a < Utf8.encode b) ∧
          texts.toFinset = members ∧ texts.length = members.card) := by
  intro t members
  have hempty : s.members? kind start key = some ∅ := by rw [members?, missing]
  have holds : t.members? kind start key = some members := by
    rw [grows.members?_replay hempty, Finset.empty_union]
  refine ⟨?_, ?_, fun clock lasts => ⟨fun size sized => lasts.reply_size sized holds, ?_⟩⟩
  · rintro before c after rfl added hadded
    obtain ⟨hbefore, lasts, -⟩ := grows.of_append
    have hmembers := hbefore.members?_replay hempty
    rw [Finset.empty_union] at hmembers
    exact (Issued.outcome_of_added? hadded lasts hmembers).1
  · obtain ⟨counts, hreplies, hsum⟩ := grows.exists_counts hempty
    rw [Finset.empty_union, Finset.card_empty, Nat.add_zero] at hsum
    exact ⟨counts, hreplies, hsum⟩
  · rintro rfl list listed
    exact lasts.reply_members listed holds

/-- A key with a string that has expired. -/
def lapsedKeyspace : Keyspace := Keyspace.empty.insert "k" ⟨.string "old", some 0⟩

/-- A set that is filled twice, gets a deadline, and is taken for a counter. -/
def fillSet : List Issued :=
  [⟨.frozen ⟨5, 1000⟩, "SADD", ["k", "b", "a", "b"]⟩, ⟨.frozen ⟨6, 1000⟩, "PEXPIRE", ["k", "1"]⟩,
    ⟨.frozen ⟨7, 1000⟩, "INCR", ["k"]⟩, ⟨.frozen ⟨8, 1000⟩, "sadd", ["k", "c", "a"]⟩]

/-- A sorted set of which a member is given twice in one command, and again with another score. -/
def fillSortedSet : List Issued :=
  [⟨.frozen ⟨5, 1000⟩, "ZADD", ["k", "inf", "a", "-inf", "a"]⟩,
    ⟨.frozen ⟨6, 1000⟩, "ZADD", ["k", "inf", "a", "inf", "b"]⟩]

theorem Keyspace.lasts_frozen (since : start.nanos ≤ now.nanos)
    (unexpired : (s.live? start key).all (fun e => !e.expired now) = true) :
    s.Lasts start key (.frozen now) := by
  refine ⟨fun _ => since, fun _ e he => ?_⟩
  rw [he] at unexpired
  simpa [Readings.frozen] using unexpired

/-- A set and a sorted set that are filled in the place of a string that has expired. -/
theorem containers_are_finite_sets_lapsed :
    (lapsedKeyspace.live? ⟨0, 0⟩ "k").isNone = true ∧
      lapsedKeyspace.OnlyGrows .set ⟨0, 0⟩ "k" fillSet ∧
      lapsedKeyspace.OnlyGrows .sortedSet ⟨0, 0⟩ "k" fillSortedSet ∧
      ((lapsedKeyspace.replay fillSet).dispatch (.frozen ⟨1000005, 0⟩) "SCARD" ["k"]).1 =
        .ok (.integer 3) ∧
      ((lapsedKeyspace.replay fillSortedSet).dispatch (.frozen ⟨7, 0⟩) "ZCARD" ["k"]).1 =
        .ok (.integer 2) := by
  have missing : lapsedKeyspace.live? ⟨0, 0⟩ "k" = none := by cbv
  have hset : lapsedKeyspace.OnlyGrows .set ⟨0, 0⟩ "k" fillSet := by
    have hsadd : Request.ofCall "SADD" ["k", "b", "a", "b"] =
        .ok (.setAdd "k" ["b", "a", "b"]) := by cbv
    have hpexpire : Request.ofCall "PEXPIRE" ["k", "1"] = .ok (.expire "k" ⟨1, .millis⟩) := by cbv
    have hsadd' : Request.ofCall "sadd" ["k", "c", "a"] = .ok (.setAdd "k" ["c", "a"]) := by cbv
    exact ⟨lasts_frozen (by decide) (by cbv), Issued.spares_of_ofCall hsadd fun _ => rfl,
      lasts_frozen (by decide) (by cbv), Issued.spares_of_ofCall hpexpire fun _ => by decide,
      lasts_frozen (by decide) (by cbv), .inr (by cbv),
      lasts_frozen (by decide) (by cbv), Issued.spares_of_ofCall hsadd' fun _ => rfl, trivial⟩
  have hsortedSet : lapsedKeyspace.OnlyGrows .sortedSet ⟨0, 0⟩ "k" fillSortedSet := by
    have hzadd : Request.ofCall "ZADD" ["k", "inf", "a", "-inf", "a"] =
        .ok (.sortedAdd "k" [(Binary64.infinity false, "a"), (Binary64.infinity true, "a")]) := by
      cbv
    have hzadd' : Request.ofCall "ZADD" ["k", "inf", "a", "inf", "b"] =
        .ok (.sortedAdd "k" [(Binary64.infinity false, "a"), (Binary64.infinity false, "b")]) := by
      cbv
    exact ⟨lasts_frozen (by decide) (by cbv), Issued.spares_of_ofCall hzadd fun _ => rfl,
      lasts_frozen (by decide) (by cbv), Issued.spares_of_ofCall hzadd' fun _ => rfl, trivial⟩
  have hmembers : membersGiven .set "k" fillSet = {"a", "b", "c"} := by
    have hlist : (fillSet.flatMap fun c => (c.added? .set "k").getD []) =
        ["b", "a", "b", "c", "a"] := by cbv
    rw [membersGiven, hlist]
    decide
  have hmembers' : membersGiven .sortedSet "k" fillSortedSet = {"a", "b"} := by
    have hlist : (fillSortedSet.flatMap fun c => (c.added? .sortedSet "k").getD []) =
        ["a", "a", "a", "b"] := by cbv
    rw [membersGiven, hlist]
    decide
  obtain ⟨-, -, hread⟩ := containers_are_finite_sets missing hset
  obtain ⟨-, -, hread'⟩ := containers_are_finite_sets missing hsortedSet
  refine ⟨by rw [missing]; rfl, hset, hsortedSet, ?_, ?_⟩
  · have hreply := (hread (.frozen ⟨1000005, 0⟩) (lasts_frozen (by decide) (by cbv))).1 "SCARD"
      (by decide)
    rwa [hmembers] at hreply
  · have hreply := (hread' (.frozen ⟨7, 0⟩) (lasts_frozen (by decide) (by cbv))).1 "ZCARD"
      (by decide)
    rwa [hmembers'] at hreply

end ScriptStore
