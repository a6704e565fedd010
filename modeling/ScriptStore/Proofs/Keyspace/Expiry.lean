import Mathlib
import ScriptStore.Proofs.Keyspace.Deadline
import ScriptStore.Proofs.Keyspace.Interference
import ScriptStore.Proofs.Number.Integer

/-!
# Giving a key a time to live

A time to live is given in seconds or in milliseconds, to a key that is being bound to a string or
to a key that is there already. All four ways admit the same spans and come to the same deadline.

* `Span.Fits` — the last millisecond of a span is one of the calendar. `Span.deadline?` is defined
  by integers without bounds; `Span.endInWords?` is the same in words of 64 bits, and
  `Span.endInWords?_eq` says that no word overflows unseen.
* `WrittenSpan` — a span in the words of calls, and the two commands that give it.
* `ways_to_expire_agree` — **a positive span is accepted exactly if it fits, and gives the same
  deadline in all ways; one that does not fit changes nothing; one that is not positive is refused
  by one command and removes the key by the other**.
-/

namespace ScriptStore

open Keyspace

variable {clock : Readings} {now : Moment} {s : Keyspace} {key value : String} {span : Span}
  {e : Entry}

/-! ## Spans -/

/-- The last millisecond of a span that begins at a moment is one of the calendar. -/
def Span.Fits (span : Span) (now : Moment) : Prop := span.inMillis + now.unixMillis ≤ 2 ^ 63 - 1

instance (span : Span) (now : Moment) : Decidable (span.Fits now) :=
  inferInstanceAs (Decidable (_ ≤ _))

theorem Span.deadline?_of_fits (h : span.Fits now) :
    span.deadline? now = some (span.endsAt now) :=
  if_pos h

theorem Span.deadline?_of_not_fits (h : ¬ span.Fits now) : span.deadline? now = none :=
  if_neg h

/-- The end of a span in words of 64 bits: the product and the sum are checked, and the milliseconds
are then read as a word without sign. -/
def Span.endInWords? (span : Span) (now : Moment) : Option Nat :=
  (int64OfInt? (span.amount.toInt * span.unit.inMillis)).bind fun millis =>
    (int64OfInt? (millis.toInt + now.unixMillis)).map fun _ =>
      now.nanos + millis.toUInt64.toNat * 1000000

theorem Span.inMillis_pos (pos : 0 < span.amount) : 0 < span.inMillis := by
  have hpos : 0 < span.amount.toInt := by simpa using Int64.lt_iff_toInt_lt.mp pos
  unfold Span.inMillis TimeUnit.inMillis
  split <;> omega

/-- **The end of a positive span is the same in words of 64 bits and in integers without bounds.** -/
theorem Span.endInWords?_eq (pos : 0 < span.amount) (now : Moment) :
    span.endInWords? now = span.deadline? now := by
  have hpos := Span.inMillis_pos pos
  have hmillis : span.amount.toInt * span.unit.inMillis = span.inMillis := rfl
  unfold endInWords? deadline?
  rw [hmillis]
  by_cases hproduct : span.inMillis < 2 ^ 63
  · have hword : (Int64.ofInt span.inMillis).toInt = span.inMillis :=
      Int64.toInt_ofInt_of_le (by omega) hproduct
    have hcast : (Int64.ofInt span.inMillis).toUInt64.toNat = span.inMillis.toNat := by
      have hnonneg : 0 ≤ Int64.ofInt span.inMillis := by
        rw [Int64.le_iff_toInt_le, hword, Int64.toInt_zero]
        omega
      rw [Int64.toNat_toUInt64_of_le hnonneg, Int64.toNatClampNeg, hword]
    rw [int64OfInt?_eq_some_iff.mpr hword, Option.bind_some, hcast, hword, int64OfInt?]
    by_cases hsum : span.inMillis + now.unixMillis ≤ 2 ^ 63 - 1
    · rw [if_pos hsum, if_pos (by omega), Option.map_some]
    · rw [if_neg hsum, if_neg (by omega), Option.map_none]
  · rw [int64OfInt?, if_neg (by omega), if_neg (by omega), Option.bind_none]

/-! ## Calls -/

/-- The option of `SET` for a time in a unit. -/
def TimeUnit.option : TimeUnit → String
  | seconds => "EX"
  | millis => "PX"

/-- The command that gives a key a time in a unit. -/
def TimeUnit.command : TimeUnit → Command
  | seconds => .expire
  | millis => .pexpire

/-- A span in the words of calls: the amount as it is written, the option for its unit, and the
names of the two commands that take it. Names and options may be in any case. -/
structure WrittenSpan where
  span : Span
  amount : String
  option : String
  set : String
  expire : String
  amount_reads : readInt64? amount = some span.amount
  option_means : asciiUpper option = span.unit.option
  set_named : Command.ofName? set = some .set
  expire_named : Command.ofName? expire = some span.unit.command

namespace WrittenSpan

variable (w : WrittenSpan)

/-- Binds a key to a string that lives for the span. -/
def runSet (clock : Readings) (s : Keyspace) (key value : String) : Outcome :=
  s.dispatch clock w.set [key, value, w.option, w.amount]

/-- Gives a key the span to live. -/
def runExpire (clock : Readings) (s : Keyspace) (key : String) : Outcome :=
  s.dispatch clock w.expire [key, w.amount]

/-- Binds a key to a string without a deadline, and then gives it the span to live. -/
def runSetExpire (now : Moment) (s : Keyspace) (key value : String) : Outcome :=
  w.runExpire (.frozen now) (s.dispatch (.frozen now) w.set [key, value]).2 key

/-! ### What the calls ask for -/

theorem integerArgument_amount : Request.integerArgument w.amount = .ok w.span.amount := by
  rw [Request.integerArgument, w.amount_reads]

theorem expiryOptions_eq (pos : 0 < w.span.amount) :
    Request.expiryOptions [w.option, w.amount] = .ok (some w.span) := by
  have hoption := w.option_means
  have hnot : ¬ w.span.amount ≤ 0 := Int64.not_le.mpr pos
  simp only [Request.expiryOptions, integerArgument_amount, bind, Except.bind, if_neg hnot]
  generalize w.span = span at hoption
  obtain ⟨amount, unit⟩ := span
  cases unit <;> simp [hoption, TimeUnit.option]

theorem ofCall_set (pos : 0 < w.span.amount) (key value : String) :
    Request.ofCall w.set [key, value, w.option, w.amount] =
      .ok (.set key value (some w.span)) := by
  have haccepts : Command.set.arity.accepts [key, value, w.option, w.amount].length = true := rfl
  simp only [Request.ofCall, w.set_named, haccepts, if_true, Request.ofArguments,
    w.expiryOptions_eq pos]
  rfl

theorem ofCall_set_of_nonpos (nonpos : w.span.amount ≤ 0) (key value : String) :
    Request.ofCall w.set [key, value, w.option, w.amount] = .error (.invalidExpiry "set") := by
  have haccepts : Command.set.arity.accepts [key, value, w.option, w.amount].length = true := rfl
  simp only [Request.ofCall, w.set_named, haccepts, if_true, Request.ofArguments,
    Request.expiryOptions, integerArgument_amount, bind, Except.bind, if_pos nonpos]

theorem ofCall_expire (key : String) :
    Request.ofCall w.expire [key, w.amount] = .ok (.expire key w.span) := by
  have hnamed := w.expire_named
  have haccepts : w.span.unit.command.arity.accepts [key, w.amount].length = true := by
    cases w.span.unit <;> rfl
  have hamount := w.integerArgument_amount
  simp only [Request.ofCall, hnamed, haccepts, if_true]
  generalize w.span = span at hamount
  obtain ⟨amount, unit⟩ := span
  cases unit <;> simp only [TimeUnit.command, Request.ofArguments, hamount] <;> rfl

theorem ofCall_set_plain (key value : String) :
    Request.ofCall w.set [key, value] = .ok (.set key value none) := by
  have haccepts : Command.set.arity.accepts [key, value].length = true := rfl
  simp only [Request.ofCall, w.set_named, haccepts, if_true]
  rfl

/-! ### What the calls do -/

theorem runSet_of_fits (pos : 0 < w.span.amount) (fits : w.span.Fits (clock 0)) :
    w.runSet clock s key value =
      (.ok .ok, s.insert key ⟨.string value, some (w.span.endsAt (clock 0))⟩) := by
  simp only [runSet, dispatch, w.ofCall_set pos, Request.run, setString,
    Span.deadline?_of_fits fits]

theorem runSet_of_not_fits (pos : 0 < w.span.amount) (fits : ¬ w.span.Fits (clock 0)) :
    w.runSet clock s key value = (.error (.command (.invalidExpiry "set")), s) := by
  simp only [runSet, dispatch, w.ofCall_set pos, Request.run, setString,
    Span.deadline?_of_not_fits fits]

theorem runSet_of_nonpos (nonpos : w.span.amount ≤ 0) :
    w.runSet clock s key value = (.error (.command (.invalidExpiry "set")), s) := by
  rw [runSet, dispatch, w.ofCall_set_of_nonpos nonpos]

theorem runExpire_eq (clock : Readings) (s : Keyspace) (key : String) :
    w.runExpire clock s key = s.expire clock key w.span := by
  rw [runExpire, dispatch, ofCall_expire]
  rfl

theorem runExpire_of_live? (pos : 0 < w.span.amount) (fits : w.span.Fits (clock 0))
    (h : s.live? (clock 1) key = some e) : w.runExpire clock s key =
      (.ok (.integer 1), s.insert key { e with deadline := some (w.span.endsAt (clock 0)) }) := by
  rw [runExpire_eq, Keyspace.expire, if_neg (Int64.not_le.mpr pos)]
  simp only [Span.deadline?_of_fits fits, lookup_eq_of_live? h]
  rfl

theorem runExpire_of_live?_none (pos : 0 < w.span.amount) (fits : w.span.Fits (clock 0))
    (h : s.live? (clock 1) key = none) :
    w.runExpire clock s key = (.ok (.integer 0), (s.lookup (clock 1) key).2) := by
  rw [runExpire_eq, Keyspace.expire, if_neg (Int64.not_le.mpr pos)]
  simp only [Span.deadline?_of_fits fits]
  rw [lookup_eq_of_live?_none h]
  rfl

theorem runExpire_of_not_fits (pos : 0 < w.span.amount) (fits : ¬ w.span.Fits (clock 0)) :
    w.runExpire clock s key = (.error (.command (.invalidExpiry (expireName w.span.unit))), s) := by
  rw [runExpire_eq, Keyspace.expire, if_neg (Int64.not_le.mpr pos)]
  simp only [Span.deadline?_of_not_fits fits]

theorem runExpire_of_nonpos (nonpos : w.span.amount ≤ 0) (clock : Readings) (s : Keyspace)
    (key : String) : (w.runExpire clock s key).1 = .ok (.count (s.live? (clock 0) key).isSome.toNat) ∧
      ∀ other : String, (w.runExpire clock s key).2.entries[other]? =
        if other = key then none else s.entries[other]? := by
  rw [runExpire_eq, Keyspace.expire, if_pos nonpos]
  exact ⟨by simp only [remove_fst], entries_remove s (clock 0) key⟩

end WrittenSpan

/-! ## All four ways -/

namespace WrittenSpan

variable {w w' : WrittenSpan}

theorem amount_pos_iff : 0 < w.span.amount ↔ 0 < w.span.inMillis := by
  rw [Int64.lt_iff_toInt_lt, Int64.toInt_zero]
  unfold Span.inMillis TimeUnit.inMillis
  split <;> omega

section

variable (same : w'.span.inMillis = w.span.inMillis) (pos : 0 < w.span.amount)
include same pos

theorem pos_of_same : 0 < w'.span.amount := by
  rwa [amount_pos_iff, same, ← amount_pos_iff]

/-- Spans of as many milliseconds bind a key to the same entry. -/
theorem runSet_congr (fits : w.span.Fits now) :
    w'.runSet (.frozen now) s key value = w.runSet (.frozen now) s key value := by
  have hfits : w'.span.Fits now := by rwa [Span.Fits, same]
  rw [w'.runSet_of_fits (pos_of_same same pos) hfits, w.runSet_of_fits pos fits, Span.endsAt,
    Span.endsAt, same]

/-- Spans of as many milliseconds give a key the same deadline. -/
theorem runExpire_congr (fits : w.span.Fits now) :
    w'.runExpire (.frozen now) s key = w.runExpire (.frozen now) s key := by
  have hpos := pos_of_same same pos
  have hfits : w'.span.Fits now := by rwa [Span.Fits, same]
  cases hlive : s.live? now key with
  | none => rw [w'.runExpire_of_live?_none hpos hfits hlive, w.runExpire_of_live?_none pos fits hlive]
  | some e =>
    rw [w'.runExpire_of_live? hpos hfits hlive, w.runExpire_of_live? pos fits hlive, Span.endsAt,
      Span.endsAt, same]

end

/-- Binding a key and giving it the span afterwards is as good as doing both at once. -/
theorem entries_runSetExpire (pos : 0 < w.span.amount) (fits : w.span.Fits now) (other : String) :
    (w.runSetExpire now s key value).2.entries[other]? =
      (w.runSet (.frozen now) s key value).2.entries[other]? := by
  have hplain : (s.dispatch (.frozen now) w.set [key, value]).2 =
      s.insert key (.lasting (.string value)) := by
    rw [dispatch, w.ofCall_set_plain]
    rfl
  have hlive : (s.insert key (.lasting (.string value))).live? now key =
      some (.lasting (.string value)) := live?_insert_self now s key (.string value)
  rw [runSetExpire, hplain, w.runExpire_of_live? pos fits hlive, w.runSet_of_fits pos fits]
  simp only [entries_insert]
  split <;> rfl

end WrittenSpan

/-- **All ways to give a key a time to live agree.** Let a span be written for the calls, in seconds
or in milliseconds.

* A positive span is accepted by both commands exactly if it fits into the calendar. The key, if it
  is there, then has the deadline at which the span ends.
* A positive span that does not fit is refused, each command naming itself, and changes nothing.
* A span that is not positive is refused by the first command and changes nothing; the second one
  removes the key, and replies whether it was there.
* The deadline comes out the same in words of 64 bits.
* Spans of as many milliseconds have the same effects at the same time, and so has binding the key
  first and giving it the span afterwards. -/
theorem ways_to_expire_agree (w : WrittenSpan) (clock : Readings) (s : Keyspace)
    (key value : String) :
    (0 < w.span.amount → w.span.Fits (clock 0) →
        w.runSet clock s key value =
            (.ok .ok, s.insert key ⟨.string value, some (w.span.endsAt (clock 0))⟩) ∧
          (∀ e, s.live? (clock 1) key = some e → w.runExpire clock s key =
            (.ok (.integer 1), s.insert key { e with deadline := w.span.endsAt (clock 0) })) ∧
          (s.live? (clock 1) key = none → (w.runExpire clock s key).1 = .ok (.integer 0) ∧
            Sheds (clock 1) s (w.runExpire clock s key).2)) ∧
      (0 < w.span.amount → ¬ w.span.Fits (clock 0) →
        w.runSet clock s key value = (.error (.command (.invalidExpiry "set")), s) ∧
          w.runExpire clock s key =
            (.error (.command (.invalidExpiry (expireName w.span.unit))), s)) ∧
      (w.span.amount ≤ 0 →
        w.runSet clock s key value = (.error (.command (.invalidExpiry "set")), s) ∧
          (w.runExpire clock s key).1 =
            .ok (.integer (if (s.live? (clock 0) key).isSome then 1 else 0)) ∧
          ∀ other : String, (w.runExpire clock s key).2.entries[other]? =
            if other = key then none else s.entries[other]?) ∧
      (0 < w.span.amount → w.span.endInWords? (clock 0) = w.span.deadline? (clock 0)) ∧
      ∀ (w' : WrittenSpan) (now : Moment), w'.span.inMillis = w.span.inMillis →
        0 < w.span.amount → w.span.Fits now →
        w'.runSet (.frozen now) s key value = w.runSet (.frozen now) s key value ∧
          w'.runExpire (.frozen now) s key = w.runExpire (.frozen now) s key ∧
          ∀ other : String, (w'.runSetExpire now s key value).2.entries[other]? =
            (w.runSet (.frozen now) s key value).2.entries[other]? := by
  refine ⟨fun pos fits => ⟨w.runSet_of_fits pos fits, fun e => w.runExpire_of_live? pos fits, ?_⟩,
    fun pos fits => ⟨w.runSet_of_not_fits pos fits, w.runExpire_of_not_fits pos fits⟩, ?_, ?_, ?_⟩
  · intro hgone
    rw [w.runExpire_of_live?_none pos fits hgone]
    exact ⟨rfl, sheds_lookup s (clock 1) key⟩
  · intro nonpos
    obtain ⟨hreply, hentries⟩ := w.runExpire_of_nonpos nonpos clock s key
    refine ⟨w.runSet_of_nonpos nonpos, ?_, hentries⟩
    rw [hreply]
    cases (s.live? (clock 0) key).isSome <;> rfl
  · exact fun pos => Span.endInWords?_eq pos (clock 0)
  · intro w' now same pos fits
    refine ⟨WrittenSpan.runSet_congr same pos fits, WrittenSpan.runExpire_congr same pos fits, ?_⟩
    intro other
    have hpos := WrittenSpan.pos_of_same same pos
    have hfits : w'.span.Fits now := by rwa [Span.Fits, same]
    rw [WrittenSpan.entries_runSetExpire hpos hfits, WrittenSpan.runSet_congr same pos fits]

/-- The greatest span of whole seconds that fits at a moment of the year 2023. -/
def greatestSeconds : WrittenSpan where
  span := ⟨9223370336854775, .seconds⟩
  amount := "9223370336854775"
  option := "Ex"
  set := "set"
  expire := "EXPIRE"
  amount_reads := by cbv
  option_means := by cbv
  set_named := by cbv
  expire_named := by cbv

/-- The same span in milliseconds. -/
def greatestMillis : WrittenSpan where
  span := ⟨9223370336854775000, .millis⟩
  amount := "+9223370336854775000"
  option := "PX"
  set := "SET"
  expire := "pexpire"
  amount_reads := by cbv
  option_means := by cbv
  set_named := by cbv
  expire_named := by cbv

/-- At the edge of the calendar, seconds and milliseconds still give a key the same deadline. -/
theorem greatest_ways_agree :
    let now : Moment := ⟨5, 1700000000000⟩
    greatestMillis.span.inMillis = greatestSeconds.span.inMillis ∧
      0 < greatestSeconds.span.amount ∧ greatestSeconds.span.Fits now ∧
      ¬ (Span.mk 9223370336854776 .seconds).Fits now ∧
      greatestMillis.runSet (.frozen now) .empty "k" "v" =
        (.ok .ok, Keyspace.empty.insert "k" ⟨.string "v", some 9223370336854775000000005⟩) := by
  intro now
  have hsame : greatestMillis.span.inMillis = greatestSeconds.span.inMillis := by decide
  have hpos : 0 < greatestSeconds.span.amount := by decide
  have hfits : greatestSeconds.span.Fits now := by decide
  refine ⟨hsame, hpos, hfits, by decide, ?_⟩
  obtain ⟨haccepted, -, -, -, hagree⟩ :=
    ways_to_expire_agree greatestSeconds (.frozen now) .empty "k" "v"
  have hends : greatestSeconds.span.endsAt now = 9223370336854775000000005 := by decide
  rw [(hagree greatestMillis now hsame hpos hfits).1, (haccepted hpos hfits).1, ← hends]
  rfl

end ScriptStore
