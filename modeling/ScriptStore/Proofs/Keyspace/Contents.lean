import Mathlib
import ScriptStore.Proofs.Keyspace.Effect

/-!
# What keys hold

A container is given its first members by the command that makes it, and a score that is no number is
no score. So no command leaves a container without members, although additions put an empty one in
place before they look it up again, and no command leaves such a score.

* `Data.Sound`, `Keyspace.Sound` — data as it should be, under one key and under all of them.
* `Addition.Fills` — an addition leaves sound data, also when it starts from an empty container.
* `Request.Filling` — what `Request.ofCall` grants of requests that add to containers.
* `Keyspace.Sound.dispatch` — **a command leaves a sound keyspace sound**, whatever its name, its
  arguments and its readings of the clocks, and whether it fails or not.
* `Keyspace.Sound.sizes` — **in a sound keyspace a container is counted as empty exactly if its key
  is not there**.
-/

namespace ScriptStore

open Keyspace

variable {clock : Readings} {now : Moment} {s t : Keyspace} {key name : String}
  {args : List String} {e : Entry} {data : Data} {r : Request}

/-! ## Sound data -/

/-- Containers have members, and scores are numbers. -/
def Data.Sound : Data → Prop
  | .string _ => True
  | .set members => ∃ member, member ∈ members
  | .sortedSet scores =>
    (∃ member, member ∈ scores) ∧
      ∀ (member : String) (score : Float), scores[member]? = some score → score.isNaN = false

/-- Every key holds sound data, whether it has expired or not. -/
def Keyspace.Sound (s : Keyspace) : Prop :=
  ∀ (key : String) (e : Entry), s.entries[key]? = some e → e.data.Sound

namespace Keyspace.Sound

theorem empty : Keyspace.empty.Sound := by
  intro key e h
  simp [Keyspace.empty] at h

/-- What holds nothing else is no less sound. -/
theorem of_entries (sound : s.Sound)
    (sub : ∀ (key : String) (e : Entry), t.entries[key]? = some e → s.entries[key]? = some e) :
    t.Sound :=
  fun key e h => sound key e (sub key e h)

theorem lookup (sound : s.Sound) (now : Moment) (key : String) : (s.lookup now key).2.Sound :=
  sound.of_entries fun _ _ => (sheds_lookup s now key).entries_of_entries

theorem remove (sound : s.Sound) (now : Moment) (key : String) : (s.remove now key).2.Sound := by
  refine (sound.lookup now key).of_entries fun other e h => ?_
  have herase : (s.remove now key).2.entries = (s.lookup now key).2.entries.erase key := rfl
  rw [herase, entries_erase] at h
  split at h
  · cases h
  · exact h

theorem insert (sound : s.Sound) (key : String) (data : e.data.Sound) : (s.insert key e).Sound := by
  intro other e' h
  rw [entries_insert] at h
  split at h
  · cases h
    exact data
  · exact sound other e' h

/-- What a key has held before it is bound for good does not matter. -/
theorem rebind {first : Entry} (sound : s.Sound) (key : String) (data : e.data.Sound) :
    ((s.insert key first).insert key e).Sound := by
  refine (sound.insert key data).of_entries fun other e' h => ?_
  rw [entries_insert, entries_insert] at h
  rw [entries_insert]
  split at h
  · rename_i heq
    rwa [if_pos heq]
  · rename_i hne
    rwa [if_neg hne]

/-- What is found is sound. -/
theorem found (sound : s.Sound) (h : s.lookup now key = (some e, t)) : e.data.Sound := by
  have hlive : s.live? now key = some e := by rw [← lookup_fst, h]
  exact sound key e (live?_eq_some_iff.mp hlive).1

/-- What is left when something has been found, or nothing, is sound. -/
theorem left {found : Option Entry} (sound : s.Sound) (h : s.lookup now key = (found, t)) :
    t.Sound := by
  have hleft := sound.lookup now key
  rwa [h] at hleft

end Keyspace.Sound

/-! ## Additions -/

/-- An addition leaves sound data, whether there has been sound data or an empty container. -/
def Addition.Fills (a : Addition) : Prop :=
  ∀ data n grown, a.add data = some (n, grown) → data.Sound ∨ data = a.fresh → grown.Sound

theorem Addition.fills_members {members : List String} (some : members ≠ []) :
    (Addition.members members).Fills := by
  intro data n grown h _
  cases data with
  | set old =>
    cases h
    obtain ⟨member, hmember⟩ := List.exists_mem_of_ne_nil _ some
    exact ⟨member, Std.TreeSet.mem_insertMany_list.mpr (.inr (by simpa using hmember))⟩
  | _ => cases h

/-- A score is either an old one or one of those that are given. -/
theorem score_of_insertMany {pairs : List (String × Float)} {old : Std.TreeMap String Float}
    {member : String} {score : Float} (h : (old.insertMany pairs)[member]? = some score) :
    old[member]? = some score ∨ (member, score) ∈ pairs := by
  induction pairs generalizing old with
  | nil =>
    rw [Std.TreeMap.insertMany_nil] at h
    exact .inl h
  | cons pair pairs ih =>
    obtain ⟨first, value⟩ := pair
    rw [Std.TreeMap.insertMany_cons] at h
    rcases ih h with hold | hmem
    · rw [Std.TreeMap.getElem?_insert] at hold
      split at hold
      · rename_i heq
        cases hold
        rw [Std.LawfulEqCmp.compare_eq_iff_eq.mp heq]
        exact .inr (List.mem_cons_self ..)
      · exact .inl hold
    · exact .inr (List.mem_cons_of_mem _ hmem)

theorem Addition.fills_scores {pairs : List (Float × String)} (some : pairs ≠ [])
    (numbers : ∀ pair ∈ pairs, pair.1.isNaN = false) : (Addition.scores pairs).Fills := by
  intro data n grown h before
  cases data with
  | sortedSet old =>
    cases h
    obtain ⟨pair, hpair⟩ := List.exists_mem_of_ne_nil _ some
    refine ⟨⟨pair.2, Std.TreeMap.mem_insertMany_list.mpr (.inr ?_)⟩, fun member score hscore => ?_⟩
    · simpa using ⟨pair.1, hpair⟩
    · rcases score_of_insertMany hscore with hold | hmem
      · rcases before with ⟨-, hnumbers⟩ | hfresh
        · exact hnumbers member score hold
        · -- an empty container has no scores
          cases hfresh
          simp at hold
      · obtain ⟨given, hgiven, heq⟩ := List.mem_map.mp hmem
        cases heq
        exact numbers given hgiven
  | _ => cases h

theorem Keyspace.Sound.grow (sound : s.Sound) (key : String) {a : Addition} (fills : a.Fills) :
    (s.grow clock key a).2.Sound := by
  unfold Keyspace.grow
  cases hlive : s.live? (clock 0) key with
  | none =>
    -- the empty container that is put in place is found at once, and filled
    obtain ⟨⟨n, grown⟩, hadd⟩ := Option.isSome_iff_exists.mp a.add_fresh
    rw [ensure_of_live?_none hlive, lookup_eq_of_live? (live?_insert_self ..)]
    simp only [Entry.lasting, hadd]
    exact (sound.lookup (clock 0) key).rebind key (fills _ _ _ hadd (.inr rfl))
  | some e =>
    rw [ensure_of_live? hlive]
    split
    · rename_i hlookup
      exact sound.left hlookup
    · rename_i e t hlookup
      split
      · exact sound.left hlookup
      · rename_i n grown hadd
        exact (sound.left hlookup).insert key (fills _ _ _ hadd (.inl (sound.found hlookup)))

/-! ## Requests -/

/-- An addition to a container adds something, and its scores are numbers. -/
def Request.Filling : Request → Prop
  | .setAdd _ members => members ≠ []
  | .sortedAdd _ pairs => pairs ≠ [] ∧ ∀ pair ∈ pairs, pair.1.isNaN = false
  | _ => True

namespace Request

theorem scoreArgument_eq_ok_iff {text : String} {score : Float} :
    scoreArgument text = .ok score ↔ readFloat? text = some score ∧ score.isNaN = false := by
  have hself (f : Float) : (f == f) = true ↔ f.isNaN = false := by
    rw [Float.isNaN_eq_decide_eq_nan, decide_eq_false_iff_not]
    exact Float.beq_self_iff
  rw [scoreArgument]
  cases readFloat? text with
  | none => simp
  | some f =>
    by_cases hf : (f == f) = true
    · simp only [hf, if_true, Except.ok.injEq, Option.some.injEq]
      exact ⟨fun h => ⟨h, h ▸ (hself f).mp hf⟩, And.left⟩
    · simp only [hf, Option.some.injEq, Bool.false_eq_true, if_false, reduceCtorEq, false_iff,
        not_and]
      rintro rfl hnumber
      exact hf ((hself f).mpr hnumber)

theorem isNaN_of_scoredMembers {pairs : List (Float × String)}
    (h : scoredMembers args = .ok pairs) : ∀ pair ∈ pairs, pair.1.isNaN = false := by
  induction args using scoredMembers.induct generalizing pairs with
  | case1 =>
    cases h
    simp
  | case2 text member rest ih =>
    obtain ⟨score, hscore, h⟩ := exists_of_bind_eq_ok h
    obtain ⟨more, hmore, h⟩ := exists_of_bind_eq_ok h
    cases h
    intro pair hpair
    rcases List.mem_cons.mp hpair with rfl | hpair
    · exact (scoreArgument_eq_ok_iff.mp hscore).2
    · exact ih hmore pair hpair
  | case3 => cases h

theorem filling_of_ofCall (h : ofCall name args = .ok r) : r.Filling := by
  obtain ⟨command, -, asks⟩ := ofCall_eq_ok_iff.mp h
  cases asks with
  | sadd key some => exact some
  | zadd key some hscores => exact ⟨some, isNaN_of_scoredMembers hscores⟩
  | _ => trivial

end Request

namespace Keyspace.Sound

theorem increase (sound : s.Sound) (key : String) (delta : Int64) :
    (s.increase clock key delta).2.Sound := by
  have hleft := sound.lookup (clock 0) key
  simp only [Keyspace.increase]
  split
  · exact hleft
  · split
    · exact hleft
    · split
      · rename_i hagain
        exact (hleft.left hagain).insert key trivial
      · rename_i hagain
        exact (hleft.left hagain).insert key trivial

theorem expire (sound : s.Sound) (key : String) (span : Span) :
    (s.expire clock key span).2.Sound := by
  unfold Keyspace.expire
  split
  · exact sound.remove (clock 0) key
  · split
    · exact sound
    · split
      · rename_i hlookup
        exact sound.left hlookup
      · rename_i hlookup
        have hdata := sound.found hlookup
        exact (sound.left hlookup).insert key hdata

theorem setString (sound : s.Sound) (key value : String) (expiry : Option Span) :
    (s.setString clock key value expiry).2.Sound := by
  unfold Keyspace.setString
  split
  · exact sound.insert key trivial
  · split
    · exact sound
    · exact sound.insert key trivial

theorem persist (sound : s.Sound) (key : String) : (s.persist clock key).2.Sound := by
  unfold Keyspace.persist
  split
  · rename_i hlookup
    have hdata := sound.found hlookup
    exact (sound.left hlookup).insert key hdata
  · rename_i hlookup
    exact sound.left hlookup

theorem remaining (sound : s.Sound) (key : String) (unit : TimeUnit) :
    (s.remaining clock key unit).2.Sound := by
  unfold Keyspace.remaining
  split
  all_goals
    rename_i hlookup
    exact sound.left hlookup

theorem removeAll (sound : s.Sound) (i : Nat) (keys : List String) :
    (Keyspace.removeAll clock s i keys).2.Sound := by
  induction keys generalizing s i with
  | nil => exact sound
  | cons key keys ih => exact ih (sound.remove (clock i) key) (i + 1)

theorem countLive (sound : s.Sound) (i : Nat) (keys : List String) :
    (Keyspace.countLive clock s i keys).2.Sound := by
  induction keys generalizing s i with
  | nil => exact sound
  | cons key keys ih => exact ih (sound.lookup (clock i) key) (i + 1)

theorem run (sound : s.Sound) (filling : r.Filling) (clock : Readings) :
    (r.run clock s).2.Sound := by
  cases r with
  | ping message => cases message <;> exact sound
  | get key | setSize key | setMembers key | sortedSize key => exact sound.lookup (clock 0) key
  | set key value expiry => exact sound.setString key value expiry
  | del keys => exact sound.removeAll 0 keys
  | exist keys => exact sound.countLive 0 keys
  | increase key delta => exact sound.increase key delta
  | expire key span => exact sound.expire key span
  | persist key => exact sound.persist key
  | remaining key unit => exact sound.remaining key unit
  | setAdd key members =>
    rw [Request.run, setAdd_eq_grow]
    exact sound.grow key (Addition.fills_members filling)
  | sortedAdd key pairs =>
    rw [Request.run, sortedAdd_eq_grow]
    exact sound.grow key (Addition.fills_scores filling.1 filling.2)
  | setClientName name | clientName | size => exact sound
  | clear => exact Keyspace.Sound.empty

/-- **A command leaves a sound keyspace sound**, whatever it is, and whether it fails or not. -/
theorem dispatch (sound : s.Sound) (clock : Readings) (name : String) (args : List String) :
    (s.dispatch clock name args).2.Sound := by
  unfold Keyspace.dispatch
  split
  · exact sound
  · rename_i r hr
    exact sound.run (Request.filling_of_ofCall hr) clock

end Keyspace.Sound

/-! ## Sizes -/

/-- How many members a container has, for the command that counts them. -/
def Data.memberCount? : Command → Data → Option Nat
  | .scard, .set members => some members.size
  | .zcard, .sortedSet scores => some scores.size
  | _, _ => none

theorem Data.Sound.memberCount_pos {command : Command} {n : Nat} (sound : data.Sound)
    (h : data.memberCount? command = some n) : 0 < n := by
  unfold Data.memberCount? at h
  split at h
  · rename_i members
    cases h
    have hfull : members.isEmpty = false := Std.TreeSet.isEmpty_eq_false_iff_exists_mem.mpr sound
    rw [Std.TreeSet.isEmpty_eq_size_eq_zero] at hfull
    simpa [Nat.pos_iff_ne_zero] using hfull
  · rename_i scores
    cases h
    have hfull : scores.isEmpty = false :=
      Std.TreeMap.isEmpty_eq_false_iff_exists_mem.mpr sound.1
    rw [Std.TreeMap.isEmpty_eq_size_eq_zero] at hfull
    simpa [Nat.pos_iff_ne_zero] using hfull
  · cases h

variable {command : Command} {size exist : String}

namespace Keyspace

theorem reply_size_of_none (sized : Command.ofName? size = some command)
    (counts : command = .scard ∨ command = .zcard) (h : s.live? (clock 0) key = none) :
    (s.dispatch clock size [key]).1 = .ok (.count 0) := by
  rcases counts with rfl | rfl <;>
    simp [dispatch, Request.ofCall, sized, Command.arity, Arity.accepts, Request.ofArguments,
      Request.run, read, h, Data.setSizeReply, Data.sortedSizeReply]

theorem reply_size_of_live? {n : Nat} (sized : Command.ofName? size = some command)
    (h : s.live? (clock 0) key = some e) (counted : e.data.memberCount? command = some n) :
    (s.dispatch clock size [key]).1 = .ok (.count n) := by
  unfold Data.memberCount? at counted
  split at counted
  case h_3 => cases counted
  all_goals
    rename_i heq
    cases counted
    simp [dispatch, Request.ofCall, sized, Command.arity, Arity.accepts, Request.ofArguments,
      Request.run, read, h, heq, Data.setSizeReply, Data.sortedSizeReply]

theorem reply_exist (asked : Command.ofName? exist = some .exist) :
    (s.dispatch clock exist [key]).1 =
      .ok (.count (s.live? (clock 0) key).isSome.toNat) := by
  simp [dispatch, Request.ofCall, asked, Command.arity, Arity.accepts, Request.ofArguments,
    Request.run, countLive]

/-- **A container is counted as empty exactly if its key is not there.** -/
theorem Sound.sizes (sound : s.Sound) (sized : Command.ofName? size = some command)
    (counts : command = .scard ∨ command = .zcard)
    (asked : Command.ofName? exist = some .exist)
    (fits : ∀ e, s.live? (clock 0) key = some e →
      ∃ n, e.data.memberCount? command = some n ∧ n < 2 ^ 63) :
    ∃ n : Int64, (s.dispatch clock size [key]).1 = .ok (.integer n) ∧
      (0 < n ↔ (s.dispatch clock exist [key]).1 = .ok (.integer 1)) := by
  have hexist : (s.dispatch clock exist [key]).1 =
      .ok (.count (s.live? (clock 0) key).isSome.toNat) := reply_exist asked
  cases hlive : s.live? (clock 0) key with
  | none =>
    refine ⟨0, reply_size_of_none sized counts hlive, fun hpos => absurd hpos (by decide), ?_⟩
    rw [hexist, hlive]
    intro h
    cases h
  | some e =>
    obtain ⟨n, hn, hsmall⟩ := fits e hlive
    refine ⟨Int64.ofNat n, reply_size_of_live? sized hlive hn, fun _ => ?_, fun _ => ?_⟩
    · rw [hexist, hlive]
      rfl
    · have hpos : 0 < n := (sound key e (live?_eq_some_iff.mp hlive).1).memberCount_pos hn
      rw [Int64.lt_iff_toInt_lt, Int64.toInt_ofNat_of_lt hsmall, Int64.toInt_zero]
      exact_mod_cast hpos

end Keyspace

end ScriptStore
