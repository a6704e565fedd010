import Mathlib
import ScriptStore.Proofs.Keyspace.Replies
import ScriptStore.Proofs.Keyspace.TimeLeft

/-!
# How small the integers of replies are

A count is replied as an integer of 64 bits. It would be negative if more were counted than a memory
with addresses of 64 bits can hold.

* `Command.least?` — the least integer that a command replies. Counters have none.
* `Keyspace.Addressable` — a keyspace that such a memory can hold.
* `Request.atLeast_run`, `Keyspace.least_le_of_dispatch` — **no command replies with less**, if no
  key has more time left than an integer can tell.
-/

namespace ScriptStore

open Keyspace

variable {clock : Readings} {now : Moment} {s t : Keyspace} {key name : String}
  {args keys : List String} {n : Nat} {least : Int} {r : Request} {command : Command}

/-- The least integer that a command replies. Counters have none. -/
def Command.least? : Command → Option Int
  | .ttl | .pttl => some (-2)
  | .incr | .decr | .incrby | .decrby => none
  | _ => some 0

/-- The least integer that a request is replied with. -/
def Request.least? : Request → Option Int
  | .remaining _ _ => some (-2)
  | .increase _ _ => none
  | _ => some 0

theorem Request.least?_of_asks (h : command.Asks args r) : r.least? = command.least? := by
  cases h <;> rfl

/-- How many keys, members or scores a request lists. -/
def Request.listed : Request → Nat
  | .del keys | .exist keys => keys.length
  | .setAdd _ members => members.length
  | .sortedAdd _ pairs => pairs.length
  | _ => 0

theorem Request.listed_le_of_asks (h : command.Asks args r) : r.listed ≤ args.length := by
  cases h with
  | zadd key some h =>
    have hlength := length_of_scoredMembers h
    simp only [listed, List.length_cons]
    omega
  | _ => simp [listed]

/-- How many members data have. A string has none. -/
def Data.members : Data → Nat
  | .string _ => 0
  | .set members => members.size
  | .sortedSet scores => scores.size

/-- A keyspace that a memory with addresses of 64 bits can hold: neither its keys nor the members of
one of them are too many. -/
structure Keyspace.Addressable (s : Keyspace) : Prop where
  keys : s.entries.size < 2 ^ 63
  members : ∀ (key : String) (e : Entry), s.entries[key]? = some e → e.data.members < 2 ^ 63

/-! ## Counts -/

namespace Keyspace

theorem removeAll_fst_le (clock : Readings) (s : Keyspace) (i : Nat) (keys : List String) :
    (removeAll clock s i keys).1 ≤ keys.length := by
  induction keys generalizing s i with
  | nil => simp [removeAll]
  | cons key keys ih =>
    have hrest := ih (s.remove (clock i) key).2 (i + 1)
    have hone := (s.remove (clock i) key).1.toNat_le
    simp only [removeAll, List.length_cons]
    omega

theorem countLive_fst_le (clock : Readings) (s : Keyspace) (i : Nat) (keys : List String) :
    (countLive clock s i keys).1 ≤ keys.length := by
  induction keys generalizing s i with
  | nil => simp [countLive]
  | cons key keys ih =>
    have hrest := ih (s.lookup (clock i) key).2 (i + 1)
    have hone := (s.lookup (clock i) key).1.isSome.toNat_le
    simp only [countLive, List.length_cons]
    omega

theorem liveCount_le_size (s : Keyspace) (now : Moment) : s.liveCount now ≤ s.entries.size := by
  rw [liveCount_eq_size_filter]
  exact Std.TreeMap.size_filter_le_size

end Keyspace

/-- An outcome whose reply, if it is an integer, is no less than a bound. -/
def Outcome.AtLeast (least : Int) (o : Outcome) : Prop :=
  ∀ n, o.1 = .ok (.integer n) → least ≤ n.toInt

namespace Outcome.AtLeast

theorem of_form {o : Outcome} {form : ReplyForm} (h : o.Answers form) (ne : form ≠ .integer) :
    AtLeast least o := by
  intro n hn
  cases h.admits hn
  exact absurd rfl ne

theorem error {e : Error} : AtLeast least (.error e, s) := by
  rintro n ⟨⟩

theorem integer {n : Int64} (h : least ≤ n.toInt) : AtLeast least (.ok (.integer n), s) := by
  rintro _ ⟨⟩
  exact h

/-- A count that fits is not negative. -/
theorem count (h : n < 2 ^ 63) : AtLeast 0 (.ok (.count n), s) := by
  apply integer
  rw [Int64.toInt_ofNat_of_lt h]
  exact Int.natCast_nonneg n

theorem flag (b : Bool) : AtLeast 0 (.ok (.count b.toNat), s) := by
  have hle := b.toNat_le
  exact count (by omega)

theorem expire (span : Span) : AtLeast 0 (s.expire clock key span) := by
  simp only [Keyspace.expire]
  split
  · exact flag _
  · split
    · exact error
    · split
      · exact flag false
      · exact flag true

theorem persist : AtLeast 0 (s.persist clock key) := by
  unfold Keyspace.persist
  split
  · exact flag true
  · exact flag false

theorem setAdd {members : List String} (few : members.length < 2 ^ 63) :
    AtLeast 0 (s.setAdd clock key members) := by
  unfold Keyspace.setAdd
  split
  · rename_i old deadline t hlookup
    have hle : (old.insertMany members).size ≤ old.size + members.length :=
      Std.TreeSet.size_insertMany_list_le
    apply count
    omega
  · exact error

theorem sortedAdd {pairs : List (Float × String)} (few : pairs.length < 2 ^ 63) :
    AtLeast 0 (s.sortedAdd clock key pairs) := by
  unfold Keyspace.sortedAdd
  split
  · rename_i old deadline t hlookup
    have hle : (old.insertMany (pairs.map fun pair => (pair.2, pair.1))).size ≤
        old.size + (pairs.map fun pair => (pair.2, pair.1)).length :=
      Std.TreeMap.size_insertMany_list_le
    rw [List.length_map] at hle
    apply count
    omega
  · exact error

/-- The time that is left is told by an integer that is no less than the reply for no key. -/
theorem remaining (reportable : s.Reportable (clock 0) key) (unit : TimeUnit) :
    AtLeast (-2) (s.remaining clock key unit) := by
  unfold Keyspace.remaining
  split
  · exact integer (by decide)
  · exact integer (by decide)
  · rename_i data deadline t hlookup
    have hlive : s.live? (clock 1) key = some ⟨data, some deadline⟩ := by
      rw [← lookup_fst, hlookup]
    have hleft : (deadline - (clock 0).nanos) / 1000000 < 2 ^ 63 :=
      reportable deadline (deadline?_of_live? hlive)
    have hmillis := Int64.toInt_ofNat_of_lt hleft
    have hnonneg := inUnit_nonneg (Int.natCast_nonneg ((deadline - (clock 0).nanos) / 1000000)) unit
    have hlt : inUnit ((deadline - (clock 0).nanos) / 1000000 : Nat) unit < 2 ^ 63 :=
      inUnit_lt (by omega) unit
    apply integer
    rw [hmillis, Int64.toInt_ofInt_of_le (by omega) hlt]
    omega

end Outcome.AtLeast

/-! ## Sizes -/

namespace Data

theorem exists_count_of_setSizeReply {found : Option Data} {v : Value}
    (h : setSizeReply found = .ok v) :
    ∃ n, v = .count n ∧ (n = 0 ∨ ∃ data, found = some data ∧ n = data.members) := by
  unfold setSizeReply at h
  split at h <;> cases h
  · exact ⟨0, rfl, .inl rfl⟩
  · rename_i members
    exact ⟨members.size, rfl, .inr ⟨_, rfl, rfl⟩⟩

theorem exists_count_of_sortedSizeReply {found : Option Data} {v : Value}
    (h : sortedSizeReply found = .ok v) :
    ∃ n, v = .count n ∧ (n = 0 ∨ ∃ data, found = some data ∧ n = data.members) := by
  unfold sortedSizeReply at h
  split at h <;> cases h
  · exact ⟨0, rfl, .inl rfl⟩
  · rename_i scores
    exact ⟨scores.size, rfl, .inr ⟨_, rfl, rfl⟩⟩

end Data

/-- A size is not negative, since the members of a key are not too many. -/
theorem Keyspace.Addressable.atLeast_read (addressable : s.Addressable)
    {reply : Option Data → Except Error Value}
    (counts : ∀ {found v}, reply found = .ok v →
      ∃ n, v = .count n ∧ (n = 0 ∨ ∃ data, found = some data ∧ n = data.members)) :
    (s.read clock key reply).AtLeast 0 := by
  intro n hn
  simp only [read, lookup_fst] at hn
  obtain ⟨k, hcount, hk⟩ := counts hn
  have hfits : k < 2 ^ 63 := by
    rcases hk with rfl | ⟨data, hfound, rfl⟩
    · omega
    · obtain ⟨e, hlive, rfl⟩ := Option.map_eq_some_iff.mp hfound
      exact addressable.members key e (live?_eq_some_iff.mp hlive).1
  exact Outcome.AtLeast.count (s := s) hfits n (by rw [hcount])

/-! ## Requests and commands -/

/-- **No request is replied with less than its least integer.** -/
theorem Request.atLeast_run (few : r.listed < 2 ^ 63) (addressable : s.Addressable)
    (reportable : ∀ key, s.Reportable (clock 0) key) (bounded : r.least? = some least) :
    (r.run clock s).AtLeast least := by
  have hform := r.answers_run clock s
  cases r with
  | increase key delta => cases bounded
  | remaining key unit =>
    cases bounded
    exact .remaining (reportable key) unit
  | ping | get | set | setMembers | setClientName | clientName | clear =>
    exact .of_form hform (by simp [form])
  | expire key span =>
    cases bounded
    exact .expire span
  | persist key =>
    cases bounded
    exact .persist
  | setAdd key members =>
    cases bounded
    exact .setAdd few
  | sortedAdd key pairs =>
    cases bounded
    exact .sortedAdd few
  | setSize key =>
    cases bounded
    exact addressable.atLeast_read Data.exists_count_of_setSizeReply
  | sortedSize key =>
    cases bounded
    exact addressable.atLeast_read Data.exists_count_of_sortedSizeReply
  | del keys =>
    cases bounded
    exact .count ((removeAll_fst_le clock s 0 keys).trans_lt few)
  | exist keys =>
    cases bounded
    exact .count ((countLive_fst_le clock s 0 keys).trans_lt few)
  | size =>
    cases bounded
    exact .count ((liveCount_le_size s (clock 0)).trans_lt addressable.keys)

/-- **No command replies with less than its least integer**, in a keyspace and with arguments that
fit into a memory with addresses of 64 bits. -/
theorem Keyspace.least_le_of_dispatch {n : Int64} (few : args.length < 2 ^ 63)
    (addressable : s.Addressable) (reportable : ∀ key, s.Reportable (clock 0) key)
    (named : Command.ofName? name = some command) (bounded : command.least? = some least)
    (h : (s.dispatch clock name args).1 = .ok (.integer n)) : least ≤ n.toInt := by
  obtain ⟨command', r, hnamed, hasks, hreply⟩ := exists_asks_of_dispatch h
  cases named.symm.trans hnamed
  rw [← Request.least?_of_asks hasks] at bounded
  have hlisted := Request.listed_le_of_asks hasks
  exact Request.atLeast_run (hlisted.trans_lt few) addressable reportable bounded n hreply

end ScriptStore
