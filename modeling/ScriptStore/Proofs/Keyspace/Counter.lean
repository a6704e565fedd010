import Mathlib
import ScriptStore.Proofs.Keyspace.Failure
import ScriptStore.Proofs.Keyspace.Interference
import ScriptStore.Proofs.Number.Integer

/-!
# Counters

A counter is kept as a text. A command that counts reads the number that the text writes, adds to
it, and writes the sum in place of the text.

* `Issued.delta?` — what a command adds to a key, as an integer without bounds.
* `Count` — a counter on paper: its text, and the number that it stands for. `Count.add` adds to the
  number and never reads the text again.
* `Issued.OnlyCounts` — a command that writes to a key at most by counting.
* `Request.leaves_or_writesTo` — the requests that may write to a key, one by one; any other leaves
  it alone (`Request.leavesAt_run`).
* `Keyspace.HoldsText` — what a key holds up to its deadline, and `HoldsText.outcome` — what one
  command makes of it.
* `counter_is_exact` — **a key counts exactly, however many commands come one after the other, if
  none of them writes to it but by counting**.
-/

namespace ScriptStore

open Keyspace

variable {clock : Readings} {now start : Moment} {s t u : Keyspace} {key : String}
  {text : Option String} {deadline : Option Nat} {c : Issued} {calls : List Issued} {r : Request}
  {command : Command} {args : List String} {n : Int64} {δ : Int}

/-! ## Commands that count -/

/-- The key that a command counts, and what it adds to it. The least integer cannot be taken away,
since its opposite is none. -/
def Command.addition? : Command → List String → Option (String × Int)
  | .incr, [key] => some (key, 1)
  | .decr, [key] => some (key, -1)
  | .incrby, [key, amount] => (readInt64? amount).map fun n => (key, n.toInt)
  | .decrby, [key, amount] =>
    ((readInt64? amount).filter (· ≠ Int64.minValue)).map fun n => (key, -n.toInt)
  | _, _ => none

/-- The commands that count. -/
def Command.counting : List Command := [.incr, .decr, .incrby, .decrby]

namespace Issued

/-- What a command adds to a key, if it counts it and the amount can be added. -/
def delta? (key : String) (c : Issued) : Option Int :=
  ((Command.ofName? c.name).bind fun command => command.addition? c.args).bind fun addition =>
    if addition.1 = key then some addition.2 else none

/-- A command that counts a key, whatever its amount. -/
def Counts (key : String) (c : Issued) : Prop :=
  ∃ command ∈ Command.counting, Command.ofName? c.name = some command ∧ c.args.head? = some key

end Issued

/-- A request that writes to a key at most by counting. -/
def Request.OnlyCounts (key : String) : Request → Prop
  | .set key' _ _ | .expire key' _ | .persist key' | .setAdd key' _ | .sortedAdd key' _ =>
    key' ≠ key
  | .del keys => key ∉ keys
  | .clear => False
  | _ => True

/-- A command that writes to a key at most by counting. -/
def Issued.OnlyCounts (key : String) (c : Issued) : Prop :=
  ∀ r, Request.ofCall c.name c.args = .ok r → r.OnlyCounts key

namespace Request

/-- A request that counts comes from a command that does. -/
theorem addition?_of_asks (h : command.Asks args (.increase key n)) :
    command.addition? args = some (key, n.toInt) := by
  cases h with
  | incr | decr => rfl
  | incrby _ h => simp [Command.addition?, h]
  | decrby _ h h' => simp [Command.addition?, h, h', exists_opposite_iff.mp ⟨_, h'⟩]

/-- A command that counts makes a request that does. -/
theorem asks_of_addition? (h : command.addition? args = some (key, δ)) :
    ∃ n : Int64, n.toInt = δ ∧ command.Asks args (.increase key n) := by
  unfold Command.addition? at h
  split at h
  · cases h
    exact ⟨1, rfl, .incr key⟩
  · cases h
    exact ⟨-1, rfl, .decr key⟩
  · obtain ⟨n, hn, heq⟩ := Option.map_eq_some_iff.mp h
    cases heq
    exact ⟨n, rfl, .incrby key hn⟩
  · obtain ⟨n, hn, heq⟩ := Option.map_eq_some_iff.mp h
    obtain ⟨hn, hmin⟩ := Option.filter_eq_some_iff.mp hn
    cases heq
    obtain ⟨opposite, hopposite⟩ := exists_opposite_iff.mpr (of_decide_eq_true hmin)
    exact ⟨opposite, hopposite, .decrby key hn hopposite⟩
  · cases h

/-- A command that counts a key makes a request that does. -/
theorem exists_increase_of_counting (counting : command ∈ Command.counting)
    (h : command.Asks (key :: args) r) : ∃ n, r = .increase key n := by
  cases h with
  | incr | decr | incrby | decrby => exact ⟨_, rfl⟩
  | _ => simp [Command.counting] at counting

end Request

namespace Issued

theorem delta?_of_ofCall (h : Request.ofCall c.name c.args = .ok (.increase key n)) :
    c.delta? key = some n.toInt := by
  obtain ⟨command, hnamed, asks⟩ := Request.ofCall_eq_ok_iff.mp h
  simp [delta?, hnamed, Request.addition?_of_asks asks]

theorem ofCall_of_delta? (h : c.delta? key = some δ) :
    ∃ n : Int64, n.toInt = δ ∧ Request.ofCall c.name c.args = .ok (.increase key n) := by
  obtain ⟨⟨key', δ'⟩, haddition, hkey⟩ := Option.bind_eq_some_iff.mp h
  obtain ⟨command, hnamed, haddition⟩ := Option.bind_eq_some_iff.mp haddition
  split at hkey
  · rename_i heq
    cases heq
    cases hkey
    obtain ⟨n, hn, asks⟩ := Request.asks_of_addition? haddition
    exact ⟨n, hn, Request.ofCall_eq_ok_iff.mpr ⟨command, hnamed, asks⟩⟩
  · cases hkey

/-- Nothing is added by a command that makes no request to count. -/
theorem delta?_eq_none (h : ¬ ∃ n, Request.ofCall c.name c.args = .ok (.increase key n)) :
    c.delta? key = none := by
  cases hdelta : c.delta? key with
  | none => rfl
  | some δ =>
    obtain ⟨n, -, hcall⟩ := ofCall_of_delta? hdelta
    exact absurd ⟨n, hcall⟩ h

/-- A command that counts a key and has nothing to add is refused. -/
theorem ofCall_of_counts (counts : c.Counts key) (h : c.delta? key = none) :
    ∃ fault, Request.ofCall c.name c.args = .error fault := by
  obtain ⟨command, hcounting, hnamed, hhead⟩ := counts
  obtain ⟨rest, hargs⟩ := List.head?_eq_some_iff.mp hhead
  cases hcall : Request.ofCall c.name c.args with
  | error fault => exact ⟨fault, rfl⟩
  | ok r =>
    obtain ⟨command', hnamed', asks⟩ := Request.ofCall_eq_ok_iff.mp hcall
    cases hnamed.symm.trans hnamed'
    rw [hargs] at asks
    obtain ⟨n, rfl⟩ := Request.exists_increase_of_counting hcounting asks
    rw [delta?_of_ofCall hcall] at h
    cases h

end Issued

/-! ## Commands that do not count -/

/-- What a key holds is left as it is, or dropped since it has expired at one of the readings. -/
def LeavesAt (key : String) (clock : Readings) (s t : Keyspace) : Prop :=
  t.entries[key]? = s.entries[key]? ∨
    t.entries[key]? = none ∧ ∃ i, s.live? (clock i) key = none

namespace LeavesAt

theorem trans (h : LeavesAt key clock s t) (h' : LeavesAt key clock t u) :
    LeavesAt key clock s u := by
  rcases h with hsame | ⟨hdropped, hgone⟩
  · rcases h' with hsame' | ⟨hdropped', i, hgone'⟩
    · exact .inl (hsame'.trans hsame)
    · exact .inr ⟨hdropped', i, by rwa [← live?_congr hsame]⟩
  · rcases h' with hsame' | ⟨hdropped', -⟩
    · exact .inr ⟨hsame'.trans hdropped, hgone⟩
    · exact .inr ⟨hdropped', hgone⟩

theorem lookup (s : Keyspace) (clock : Readings) (i : Nat) (key other : String) :
    LeavesAt key clock s (s.lookup (clock i) other).2 := by
  by_cases hkey : key = other
  · subst hkey
    cases hlive : s.live? (clock i) key with
    | none => exact .inr ⟨by rw [entries_lookup_self, hlive], i, hlive⟩
    | some e =>
      apply Or.inl
      rw [entries_lookup_self, hlive, (live?_eq_some_iff.mp hlive).1]
  · exact .inl (entries_lookup_of_ne s (clock i) hkey)

theorem countLive (keys : List String) (s : Keyspace) (i : Nat) :
    LeavesAt key clock s (countLive clock s i keys).2 := by
  induction keys generalizing s i with
  | nil => exact .inl rfl
  | cons first keys ih => exact (lookup s clock i key first).trans (ih _ (i + 1))

end LeavesAt

/-- A request that does not count a key leaves it alone, but for dropping what has expired. -/
theorem Request.leavesAt_run (only : r.OnlyCounts key) (hr : ∀ n, r ≠ .increase key n)
    (clock : Readings) (s : Keyspace) : LeavesAt key clock s (r.run clock s).2 := by
  cases r with
  | get other | setSize other | setMembers other | sortedSize other =>
    exact .lookup s clock 0 key other
  | remaining other unit =>
    have hlookup : ((remaining other unit).run clock s).2 = (s.lookup (clock 1) other).2 := by
      simp only [run, Keyspace.remaining]
      split <;> rename_i heq <;> rw [heq]
    rw [hlookup]
    exact .lookup s clock 1 key other
  | exist keys => exact .countLive keys s 0
  | del keys =>
    apply Or.inl
    simp only [run, entries_removeAll]
    exact if_neg only
  | ping message => cases message <;> exact .inl rfl
  | setClientName | clientName | size => exact .inl rfl
  | clear => exact only.elim
  | increase other delta =>
    have hne : key ≠ other := by
      rintro rfl
      exact hr delta rfl
    exact .inl ((confined_run rfl (.refl other s) clock).rest key hne)
  | set other value expiry | expire other span | persist other | setAdd other members
  | sortedAdd other pairs =>
    have hne : key ≠ other := Ne.symm only
    exact .inl ((confined_run rfl (.refl other s) clock).rest key hne)

/-- A request that may write to a key. -/
inductive Request.WritesTo (key : String) : Request → Prop where
  | set (value : String) (expiry : Option Span) : WritesTo key (.set key value expiry)
  | increase (delta : Int64) : WritesTo key (.increase key delta)
  | expire (span : Span) : WritesTo key (.expire key span)
  | persist : WritesTo key (.persist key)
  | setAdd (members : List String) : WritesTo key (.setAdd key members)
  | sortedAdd (pairs : List (Float × String)) : WritesTo key (.sortedAdd key pairs)
  | del {keys : List String} (mem : key ∈ keys) : WritesTo key (.del keys)
  | clear : WritesTo key .clear

/-- A request either leaves a key alone or is one of those that write to it. -/
theorem Request.leaves_or_writesTo (r : Request) (key : String) :
    (r.OnlyCounts key ∧ ∀ n, r ≠ .increase key n) ∨ r.WritesTo key := by
  cases r with
  | set other value expiry =>
    by_cases h : other = key
    · exact .inr (h ▸ .set value expiry)
    · exact .inl ⟨h, by simp⟩
  | increase other delta =>
    by_cases h : other = key
    · exact .inr (h ▸ .increase delta)
    · exact .inl ⟨trivial, by simp [h]⟩
  | expire other span =>
    by_cases h : other = key
    · exact .inr (h ▸ .expire span)
    · exact .inl ⟨h, by simp⟩
  | persist other =>
    by_cases h : other = key
    · exact .inr (h ▸ .persist)
    · exact .inl ⟨h, by simp⟩
  | setAdd other members =>
    by_cases h : other = key
    · exact .inr (h ▸ .setAdd members)
    · exact .inl ⟨h, by simp⟩
  | sortedAdd other pairs =>
    by_cases h : other = key
    · exact .inr (h ▸ .sortedAdd pairs)
    · exact .inl ⟨h, by simp⟩
  | del keys =>
    by_cases h : key ∈ keys
    · exact .inr (.del h)
    · exact .inl ⟨h, by simp⟩
  | clear => exact .inr .clear
  | _ => exact .inl ⟨trivial, by simp⟩

/-- **A command that does not count a key leaves it alone**, but for dropping what has expired. -/
theorem Issued.leavesAt_outcome (only : c.OnlyCounts key)
    (h : ¬ ∃ n, Request.ofCall c.name c.args = .ok (.increase key n)) (s : Keyspace) :
    LeavesAt key c.clock s (c.outcome s).2 := by
  rw [outcome, dispatch]
  cases hcall : Request.ofCall c.name c.args with
  | error fault => exact .inl rfl
  | ok r =>
    apply Request.leavesAt_run (only r hcall)
    rintro n rfl
    exact h ⟨n, hcall⟩

/-! ## Counters on paper -/

/-- A counter: the text that is shown, if there is one, and the number that it stands for, if it is
one. -/
structure Count where
  text : Option String
  number : Option Int

namespace Count

/-- The counter of a text. Without one it stands at 0. -/
def ofText (text : Option String) : Count :=
  ⟨text, text.elim (some 0) fun text => (readInt64? text).map Int64.toInt⟩

/-- The counter after an addition. A sum out of range, or to what is no number, changes nothing. -/
def add (count : Count) (δ : Int) : Count :=
  match count.number with
  | some m =>
    if -2 ^ 63 ≤ m + δ ∧ m + δ < 2 ^ 63 then ⟨some (toString (m + δ)), some (m + δ)⟩ else count
  | none => count

/-- The reply to an addition. -/
def reply (count : Count) (δ : Int) : Except Error Value :=
  match count.number with
  | some m =>
    if -2 ^ 63 ≤ m + δ ∧ m + δ < 2 ^ 63 then .ok (.integer (Int64.ofInt (m + δ)))
    else .error (.command .overflow)
  | none => .error (.command .notAnInteger)

/-- The counter after commands in a row, of which those add to it that count its key. -/
def after (key : String) (count : Count) (calls : List Issued) : Count :=
  calls.foldl (fun count c => (c.delta? key).elim count count.add) count

theorem ofText_toString (n : Int64) :
    ofText (some (toString n.toInt)) = ⟨some (toString n.toInt), some n.toInt⟩ := by
  have hback : readInt64? (toString n.toInt) = some n := readInt64?_int64Text n
  simp only [ofText, Option.elim_some, hback, Option.map_some]

/-- **A counter stands for the number that its text writes**, after an addition as before. -/
theorem ofText_text_add (text : Option String) (δ : Int) :
    ofText ((ofText text).add δ).text = (ofText text).add δ := by
  unfold add
  split
  · rename_i m hm
    split
    · rename_i hrange
      have hsum := Int64.toInt_ofInt_of_le hrange.1 hrange.2
      have hback := ofText_toString (Int64.ofInt (m + δ))
      rwa [hsum] at hback
    · rfl
  · rfl

/-- An addition succeeds exactly if the sum is in range, and the reply is the sum. -/
theorem reply_eq_ok_iff {count : Count} {v : Value} : count.reply δ = .ok v ↔
    ∃ m, count.number = some m ∧ -2 ^ 63 ≤ m + δ ∧ m + δ < 2 ^ 63 ∧
      ∃ k : Int64, k.toInt = m + δ ∧ v = .integer k := by
  unfold reply
  split
  · rename_i m hm
    constructor
    · intro h
      split at h
      · rename_i hrange
        cases h
        exact ⟨m, hm, hrange.1, hrange.2, _, Int64.toInt_ofInt_of_le hrange.1 hrange.2, rfl⟩
      · cases h
    · rintro ⟨m', hm', hge, hlt, k, hk, rfl⟩
      obtain rfl : m' = m := Option.some.inj (hm'.symm.trans hm)
      rw [if_pos ⟨hge, hlt⟩, ← hk, Int64.ofInt_toInt]
  · rename_i hnone
    apply iff_of_false
    · simp
    · rintro ⟨m, hm, -⟩
      rw [hnone] at hm
      cases hm

theorem after_snoc (key : String) (count : Count) (calls : List Issued) (c : Issued) :
    count.after key (calls ++ [c]) =
      (c.delta? key).elim (count.after key calls) (count.after key calls).add :=
  List.foldl_append

/-- What is no number stays what it is. -/
theorem after_of_no_number {count : Count} (h : count.number = none) (key : String)
    (calls : List Issued) : count.after key calls = count := by
  have hadd (δ : Int) : count.add δ = count := by
    rw [add, h]
  induction calls with
  | nil => rfl
  | cons c calls ih =>
    cases hdelta : c.delta? key with
    | none => simpa [after, hdelta] using ih
    | some δ => simpa [after, hdelta, hadd] using ih

end Count

/-! ## What a key holds -/

/-- A moment from a start on, and before a deadline if there is one. -/
def Moment.Within (start : Moment) (deadline : Option Nat) (now : Moment) : Prop :=
  start.nanos ≤ now.nanos ∧ ∀ d ∈ deadline, now.nanos < d

/-- All that a command reads of the clocks lies between a start and a deadline. -/
def Issued.Within (start : Moment) (deadline : Option Nat) (c : Issued) : Prop :=
  ∀ i, Moment.Within start deadline (c.clock i)

theorem Entry.expired_of_within {e : Entry} (h : Moment.Within start e.deadline now) :
    e.expired now = false := by
  unfold Entry.expired
  split
  · rfl
  · rename_i d hd
    have hlt := h.2 d hd
    simpa using hlt

/-- What a key holds from a start on, up to a deadline: a text, or nothing. -/
inductive Keyspace.HoldsText (s : Keyspace) (start : Moment) (key : String)
    (deadline : Option Nat) : Option String → Prop where
  | text {text : String} (entry : s.entries[key]? = some ⟨.string text, deadline⟩) :
      HoldsText s start key deadline (some text)
  | missing (gone : s.live? start key = none) (lasting : deadline = none) :
      HoldsText s start key deadline none

namespace Keyspace.HoldsText

theorem of_live? (begins : s.live? start key = text.map fun text => ⟨.string text, deadline⟩)
    (lasting : text = none → deadline = none) : s.HoldsText start key deadline text := by
  cases text with
  | none => exact .missing begins (lasting rfl)
  | some text => exact .text (live?_eq_some_iff.mp begins).1

section

variable (holds : s.HoldsText start key deadline text)
include holds

/-- No moment within shows anything else. -/
theorem live? (within : Moment.Within start deadline now) :
    s.live? now key = text.map fun text => ⟨.string text, deadline⟩ := by
  cases holds with
  | text entry => exact live?_eq_some_iff.mpr ⟨entry, Entry.expired_of_within within⟩
  | missing gone => exact live?_eq_none_mono within.1 gone

theorem of_leavesAt (h : LeavesAt key clock s t)
    (within : ∀ i, Moment.Within start deadline (clock i)) :
    t.HoldsText start key deadline text := by
  rcases h with hsame | ⟨hdropped, i, hgone⟩
  · cases holds with
    | text entry => exact .text (hsame.trans entry)
    | missing gone lasting => exact .missing (by rwa [live?_congr hsame]) lasting
  · have htext := holds.live? (within i)
    rw [hgone] at htext
    cases holds with
    | text => cases htext
    | missing gone lasting => exact .missing (by simp [Keyspace.live?, hdropped]) lasting

/-- Looking the key up finds the text and leaves it. -/
theorem exists_lookup (within : Moment.Within start deadline now) :
    ∃ t, s.lookup now key = (text.map fun text => ⟨.string text, deadline⟩, t) ∧
      t.HoldsText start key deadline text := by
  refine ⟨(s.lookup now key).2, ?_, ?_⟩
  · rw [← holds.live? within, ← lookup_fst]
  · exact holds.of_leavesAt (.lookup s (fun _ => now) 0 key key) fun _ => within

end

/-- The number that is read from the text is the one that the counter stands for. -/
theorem counter_map (text : Option String) (deadline : Option Nat) :
    (∃ n : Int64, (Count.ofText text).number = some n.toInt ∧
        counter (text.map fun text => ⟨.string text, deadline⟩) = .ok n) ∨
      (Count.ofText text).number = none ∧
        counter (text.map fun text => ⟨.string text, deadline⟩) =
          .error (.command .notAnInteger) := by
  cases text with
  | none => exact .inl ⟨0, rfl, rfl⟩
  | some text =>
    cases hread : readInt64? text with
    | none => exact .inr ⟨by simp [Count.ofText, hread], by simp [counter, hread]⟩
    | some n => exact .inl ⟨n, by simp [Count.ofText, hread], by simp [counter, hread]⟩

/-- An addition does to the key what it does to the counter, and has its reply. -/
theorem increase (holds : s.HoldsText start key deadline text)
    (within : ∀ i, Moment.Within start deadline (clock i)) (n : Int64) :
    (s.increase clock key n).2.HoldsText start key deadline
        ((Count.ofText text).add n.toInt).text ∧
      (s.increase clock key n).1 = (Count.ofText text).reply n.toInt := by
  obtain ⟨t, hlookup, ht⟩ := holds.exists_lookup (within 0)
  obtain ⟨u, hlookup', -⟩ := ht.exists_lookup (within 1)
  simp only [Keyspace.increase, hlookup, Count.add, Count.reply]
  rcases counter_map text deadline with ⟨m, hnumber, hcounter⟩ | ⟨hnumber, hcounter⟩
  · rw [hnumber, hcounter]
    simp only [int64OfInt?]
    by_cases hrange : -2 ^ 63 ≤ m.toInt + n.toInt ∧ m.toInt + n.toInt < 2 ^ 63
    · have htext : int64Text (Int64.ofInt (m.toInt + n.toInt)) = toString (m.toInt + n.toInt) := by
        rw [int64Text, Int64.toInt_ofInt_of_le hrange.1 hrange.2]
      simp only [if_pos hrange, hlookup', htext]
      cases text with
      | none =>
        cases holds with
        | missing gone lasting =>
          refine ⟨.text ?_, rfl⟩
          simp [lasting, Entry.lasting]
      | some text =>
        refine ⟨.text ?_, rfl⟩
        simp
    · simp only [if_neg hrange, and_true]
      exact ht
  · rw [hnumber, hcounter]
    exact ⟨ht, rfl⟩

/-- **One command does to the key what it does to the counter.** -/
theorem outcome (holds : s.HoldsText start key deadline text) (only : c.OnlyCounts key)
    (within : c.Within start deadline) :
    (c.outcome s).2.HoldsText start key deadline
      ((c.delta? key).elim (Count.ofText text) (Count.ofText text).add).text := by
  by_cases hcounts : ∃ n, Request.ofCall c.name c.args = .ok (.increase key n)
  · obtain ⟨n, hcall⟩ := hcounts
    rw [Issued.delta?_of_ofCall hcall, Issued.outcome, dispatch, hcall]
    exact (holds.increase within n).1
  · rw [Issued.delta?_eq_none hcounts]
    exact holds.of_leavesAt (c.leavesAt_outcome only hcounts s) within

/-- **Commands in a row do to the key what they do to the counter**, and the counter always stands
for the number that its text writes. -/
theorem replay (holds : s.HoldsText start key deadline text) (calls : List Issued)
    (only : ∀ c ∈ calls, c.OnlyCounts key) (within : ∀ c ∈ calls, c.Within start deadline) :
    (s.replay calls).HoldsText start key deadline ((Count.ofText text).after key calls).text ∧
      Count.ofText ((Count.ofText text).after key calls).text =
        (Count.ofText text).after key calls := by
  induction calls using List.reverseRecOn with
  | nil => exact ⟨holds, rfl⟩
  | append_singleton calls c ih =>
    obtain ⟨hcalls, hcount⟩ := ih (fun c hc => only c (by simp [hc]))
      fun c hc => within c (by simp [hc])
    have hstep := hcalls.outcome (only c (by simp)) (within c (by simp))
    rw [hcount] at hstep
    rw [Count.after_snoc, Keyspace.replay_append]
    refine ⟨hstep, ?_⟩
    cases c.delta? key with
    | none => exact hcount
    | some δ =>
      have hadd := Count.ofText_text_add ((Count.ofText text).after key calls).text δ
      rwa [hcount] at hadd

end Keyspace.HoldsText

/-- **Counters are exact.** Let a key be missing or hold a string, and let commands follow of which
none writes to the key except by counting, before the deadline if the key has one. At each point:

* the key holds what the counter shows, and its deadline is the one from the start;
* `GET` replies the text of the counter;
* a further addition succeeds exactly if the sum, without bounds, is in the range of 64 bits, and
  replies the sum;
* a command that fails changes nothing;
* if the string at the start was no number, it is still there, and each command that would count it
  fails.

The counter after a further addition is what `Count.add` says: its text is the sum in decimal. -/
theorem counter_is_exact {s : Keyspace} {start : Moment} {key : String} {text : Option String}
    {deadline : Option Nat} {calls : List Issued}
    (begins : s.live? start key = text.map fun text => ⟨.string text, deadline⟩)
    (lasting : text = none → deadline = none)
    (only : ∀ c ∈ calls, c.OnlyCounts key) (within : ∀ c ∈ calls, c.Within start deadline) :
    let t := s.replay calls
    let count := (Count.ofText text).after key calls
    (∀ now, Moment.Within start deadline now →
        t.live? now key = count.text.map fun text => ⟨.string text, deadline⟩) ∧
      (∀ clock, (∀ i, Moment.Within start deadline (clock i)) →
        (t.dispatch clock "GET" [key]).1 = .ok (count.text.elim .nil .text)) ∧
      (∀ (c : Issued) (δ : Int), c.Within start deadline → c.delta? key = some δ →
        ∀ v, (c.outcome t).1 = .ok v ↔
          ∃ m, count.number = some m ∧ -2 ^ 63 ≤ m + δ ∧ m + δ < 2 ^ 63 ∧
            ∃ k : Int64, k.toInt = m + δ ∧ v = .integer k) ∧
      (∀ (c : Issued) (error : Error), (c.outcome t).1 = .error error →
        ∀ now, (∀ i, (c.clock i).nanos ≤ now.nanos) → Untouched now t (c.outcome t).2) ∧
      ((Count.ofText text).number = none → count = Count.ofText text ∧
        ∀ c : Issued, c.Within start deadline → c.Counts key →
          ∃ error, (c.outcome t).1 = .error error) := by
  intro t count
  obtain ⟨holds, hcount⟩ := (HoldsText.of_live? begins lasting).replay calls only within
  have hreply (c : Issued) (δ : Int) (hwithin : c.Within start deadline)
      (hdelta : c.delta? key = some δ) : (c.outcome t).1 = count.reply δ := by
    obtain ⟨n, rfl, hcall⟩ := Issued.ofCall_of_delta? hdelta
    have hincrease := (holds.increase hwithin n).2
    rw [hcount] at hincrease
    rw [Issued.outcome, dispatch, hcall]
    exact hincrease
  refine ⟨fun now => holds.live?, ?_, ?_, ?_, ?_⟩
  · intro clock hwithin
    have hget : Request.ofCall "GET" [key] = .ok (.get key) := rfl
    have hlive : t.live? (clock 0) key = count.text.map fun text => ⟨.string text, deadline⟩ :=
      holds.live? (hwithin 0)
    rw [dispatch, hget]
    simp only [Request.run, Keyspace.read, lookup_fst, hlive]
    cases count.text <;> rfl
  · intro c δ hwithin hdelta v
    rw [hreply c δ hwithin hdelta]
    exact Count.reply_eq_ok_iff
  · intro c error herror now hpast
    exact (sheds_of_dispatch_eq_error hpast herror).untouched
  · intro hnumber
    have hsame : count = Count.ofText text := Count.after_of_no_number hnumber key calls
    refine ⟨hsame, ?_⟩
    intro c hwithin hcounts
    cases hdelta : c.delta? key with
    | none =>
      obtain ⟨fault, hcall⟩ := Issued.ofCall_of_counts hcounts hdelta
      exact ⟨.command fault, by rw [Issued.outcome, dispatch, hcall]⟩
    | some δ =>
      refine ⟨.command .notAnInteger, ?_⟩
      rw [hreply c δ hwithin hdelta, hsame, Count.reply, hnumber]

/-- A counter one below the greatest integer, which expires. -/
def highKeyspace : Keyspace := Keyspace.empty.insert "n" ⟨.string "9223372036854775806", some 100⟩

/-- The counter reaches the greatest integer, refuses one more, and goes down to the least one. -/
theorem counter_is_exact_at_bounds :
    let clock := Readings.frozen ⟨50, 50⟩
    let calls : List Issued :=
      [⟨clock, "INCR", ["n"]⟩, ⟨clock, "INCRBY", ["n", "1"]⟩, ⟨clock, "SET", ["m", "x"]⟩,
        ⟨clock, "DECRBY", ["n", "9223372036854775807"]⟩, ⟨clock, "DECR", ["n"]⟩]
    let last : Issued := ⟨clock, "INCRBY", ["n", "-9223372036854775807"]⟩
    highKeyspace.live? ⟨0, 0⟩ "n" = some ⟨.string "9223372036854775806", some 100⟩ ∧
      (∀ c ∈ calls, c.OnlyCounts "n") ∧ (∀ c ∈ calls, c.Within ⟨0, 0⟩ (some 100)) ∧
      (highKeyspace.replay calls).live? ⟨99, 99⟩ "n" = some ⟨.string "-1", some 100⟩ ∧
      (last.outcome (highKeyspace.replay calls)).1 = .ok (.integer Int64.minValue) := by
  intro clock calls last
  have begins : highKeyspace.live? ⟨0, 0⟩ "n" =
      some ⟨.string "9223372036854775806", some 100⟩ := by cbv
  have hwithin : ∀ i, Moment.Within ⟨0, 0⟩ (some 100) (clock i) := fun _ => by
    simp [Moment.Within, clock, Readings.frozen]
  have within : ∀ c ∈ calls, c.Within ⟨0, 0⟩ (some 100) := by
    simp [calls, Issued.Within, hwithin]
  have only : ∀ c ∈ calls, c.OnlyCounts "n" := by
    have hset : Request.ofCall "SET" ["m", "x"] = .ok (.set "m" "x" none) := by cbv
    have hincr : Request.ofCall "INCR" ["n"] = .ok (.increase "n" 1) := by cbv
    have hincrby : Request.ofCall "INCRBY" ["n", "1"] = .ok (.increase "n" 1) := by cbv
    have hdecrby : Request.ofCall "DECRBY" ["n", "9223372036854775807"] =
        .ok (.increase "n" (-9223372036854775807)) := by cbv
    have hdecr : Request.ofCall "DECR" ["n"] = .ok (.increase "n" (-1)) := by cbv
    simp [calls, Issued.OnlyCounts, hset, hincr, hincrby, hdecrby, hdecr, Request.OnlyCounts]
  have hcount : (Count.ofText (some "9223372036854775806")).after "n" calls =
      ⟨some "-1", some (-1)⟩ := by cbv
  have hlast : last.delta? "n" = some (-9223372036854775807) := by cbv
  have hbegins : highKeyspace.live? ⟨0, 0⟩ "n" =
      (some "9223372036854775806").map fun text => ⟨.string text, some 100⟩ := begins
  obtain ⟨hlive, -, hstep, -⟩ := counter_is_exact hbegins (by simp) only within
  rw [hcount] at hlive hstep
  refine ⟨begins, only, within, hlive ⟨99, 99⟩ (by simp [Moment.Within]), ?_⟩
  exact (hstep last _ (fun i => hwithin i) hlast _).mpr
    ⟨-1, rfl, by decide, by decide, Int64.minValue, by decide, rfl⟩

end ScriptStore
