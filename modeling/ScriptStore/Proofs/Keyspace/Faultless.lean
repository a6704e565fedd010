import Mathlib
import ScriptStore.Proofs.Keyspace.Expiry
import ScriptStore.Proofs.Keyspace.Positions
import ScriptStore.Proofs.Keyspace.TimeLeft
import ScriptStore.Proofs.Number.Words

/-!
# Commands in words and by position

A command can be run with arguments that are taken by their positions and with amounts and times that
are words of 64 bits. This module does so, and lets the command fault where a position is empty or a
word too small, unless the command has an error of its own for it.

* `Span.deadlineInWords`, `scaled` — the end of a span, and the time that is left, in words.
* `Request.runInWords`, `Keyspace.dispatchInWords` — requests and commands that may fault.
* `Request.runInWords_eq_or` — a request does not fault, unless it reports a time that no word can
  tell.
* `dispatch_never_faults` — **no command faults, whatever its name and its arguments are**, and it
  does the same as in integers without bounds.
-/

namespace ScriptStore

open Keyspace

variable {clock : Readings} {now : Moment} {s : Keyspace} {key name : String} {args : List String}
  {span : Span} {unit : TimeUnit} {r : Request}

/-! ## Words without a check -/

/-- A number without sign as a word with sign. There is no check but for the fault. -/
def signed (n : Nat) : Except Fault Int64 :=
  if n < 2 ^ 63 then .ok (Int64.ofNat n) else .error .range

/-- A word as one without sign. There is no check but for the fault. -/
def unsigned (n : Int64) : Except Fault UInt64 := if 0 ≤ n then .ok n.toUInt64 else .error .range

theorem signed_eq {n : Nat} (h : n < 2 ^ 63) : signed n = .ok (Int64.ofNat n) := if_pos h

theorem unsigned_eq {n : Int64} (h : 0 ≤ n) : unsigned n = .ok n.toUInt64 := if_pos h

/-! ## Times -/

/-- A span in milliseconds, unless no word can tell them. -/
def Span.millisInWords (span : Span) : Option Int64 :=
  match span.unit with
  | .seconds => checkedMul span.amount 1000
  | .millis => some span.amount

/-- The end of a span from now on in words, unless it lies past the last millisecond of the
calendar. -/
def Span.deadlineInWords (span : Span) (now : Moment) : Except Fault (Option Nat) := do
  let calendar ← signed now.unixMillis
  match span.millisInWords.filter fun millis => (checkedAdd millis calendar).isSome with
  | none => return none
  | some millis => return some (now.nanos + (← unsigned millis).toNat * 1000000)

/-- Whole milliseconds in a unit. -/
def scaled (millis : Int64) : TimeUnit → Int64
  | .millis => millis
  | .seconds => saturatingAdd millis 500 / 1000

theorem Span.millisInWords_eq (span : Span) : span.millisInWords = int64OfInt? span.inMillis := by
  unfold millisInWords inMillis
  cases span.unit with
  | seconds =>
    rw [checkedMul_eq]
    rfl
  | millis =>
    simp only [TimeUnit.inMillis, mul_one]
    exact (int64OfInt?_eq_some_iff.mpr rfl).symm

/-- **The end of a positive span does not fault**, as long as the calendar itself can be told. -/
theorem Span.deadlineInWords_eq (pos : 0 < span.amount) (told : now.unixMillis < 2 ^ 63) :
    span.deadlineInWords now = .ok (span.deadline? now) := by
  have hproduct : span.amount.toInt * span.unit.inMillis = span.inMillis := rfl
  rw [← Span.endInWords?_eq pos, deadlineInWords, endInWords?, signed_eq told, millisInWords_eq,
    hproduct]
  cases hmillis : int64OfInt? span.inMillis with
  | none => rfl
  | some millis =>
    have hnonneg : 0 ≤ millis := by
      have hpos := Span.inMillis_pos pos
      have hword := int64OfInt?_eq_some_iff.mp hmillis
      rw [Int64.le_iff_toInt_le, Int64.toInt_zero]
      omega
    have hsum : checkedAdd millis (Int64.ofNat now.unixMillis) =
        int64OfInt? (millis.toInt + now.unixMillis) := by
      rw [checkedAdd_eq, Int64.toInt_ofNat_of_lt told]
    simp only [bind, Except.bind, Option.bind_some, Option.filter_some, hsum]
    cases int64OfInt? (millis.toInt + now.unixMillis) with
    | none => rfl
    | some last =>
      simp only [Option.isSome_some, if_true, unsigned_eq hnonneg]
      rfl

/-- The time that is left is scaled without a fault. -/
theorem scaled_eq {millis : Int64} (h : 0 ≤ millis.toInt) (unit : TimeUnit) :
    scaled millis unit = Int64.ofInt (inUnit millis.toInt unit) := by
  cases unit with
  | millis => rw [scaled, inUnit, Int64.ofInt_toInt]
  | seconds =>
    have hhalf : (500 : Int64).toInt = 500 := by decide
    have hsum : (saturatingAdd millis 500).toInt = min (millis.toInt + 500) (2 ^ 63 - 1) := by
      have hsaturates := toInt_saturatingAdd h (hhalf ▸ by omega : 0 ≤ (500 : Int64).toInt)
      rwa [hhalf] at hsaturates
    have hnonneg := inUnit_nonneg h .seconds
    have hlt := inUnit_lt millis.toInt_lt .seconds
    apply Int64.toInt_inj.mp
    rw [scaled, Int64.toInt_div_of_ne_right _ _ (by decide), Int64.toInt_ofInt_of_le (by omega) hlt,
      hsum, Int.tdiv_eq_ediv_of_nonneg (by omega)]
    rfl

/-! ## Requests -/

/-- A request in words. Only counters, deadlines and reports of time have to do with words that may
be too small. -/
def Request.runInWords (clock : Readings) (s : Keyspace) : Request → Except Fault Outcome
  | .increase key delta =>
    let (found, s) := s.lookup (clock 0) key
    match counter found with
    | .error e => .ok (.error e, s)
    | .ok current =>
      match checkedAdd current delta with
      | none => .ok (.error (.command .overflow), s)
      | some sum =>
        let data := Data.string (int64Text sum)
        match s.lookup (clock 1) key with
        | (some e, s) => .ok (.ok (.integer sum), s.insert key { e with data })
        | (none, s) => .ok (.ok (.integer sum), s.insert key (.lasting data))
  | .set key value (some span) => do
    match ← span.deadlineInWords (clock 0) with
    | none => return (.error (.command (.invalidExpiry "set")), s)
    | some deadline => return (.ok .ok, s.insert key ⟨.string value, some deadline⟩)
  | .expire key span =>
    if span.amount ≤ 0 then
      let (live, s) := s.remove (clock 0) key
      .ok (.ok (.count live.toNat), s)
    else do
      match ← span.deadlineInWords (clock 0) with
      | none => return (.error (.command (.invalidExpiry (expireName span.unit))), s)
      | some deadline =>
        match s.lookup (clock 1) key with
        | (none, s) => return (.ok (.count 0), s)
        | (some e, s) => return (.ok (.count 1), s.insert key { e with deadline := some deadline })
  | .remaining key unit =>
    match s.lookup (clock 1) key with
    | (none, s) => .ok (.ok (.integer (-2)), s)
    | (some ⟨_, none⟩, s) => .ok (.ok (.integer (-1)), s)
    | (some ⟨_, some deadline⟩, s) => do
      let millis ← signed ((deadline - (clock 0).nanos) / 1000000)
      return (.ok (.integer (scaled millis unit)), s)
  | r => .ok (r.run clock s)

namespace Request

theorem runInWords_increase (delta : Int64) :
    (increase key delta).runInWords clock s = .ok ((increase key delta).run clock s) := by
  simp only [runInWords, run, Keyspace.increase, checkedAdd_eq]
  cases counter (s.lookup (clock 0) key).1 with
  | error e => rfl
  | ok current =>
    simp only
    cases int64OfInt? (current.toInt + delta.toInt) with
    | none => rfl
    | some sum =>
      rcases (s.lookup (clock 0) key).2.lookup (clock 1) key with ⟨_ | e, t⟩ <;> rfl

theorem runInWords_set {value : String} {expiry : Option Span}
    (wf : (set key value expiry).WellFormed) (told : (clock 0).unixMillis < 2 ^ 63) :
    (set key value expiry).runInWords clock s = .ok ((set key value expiry).run clock s) := by
  cases expiry with
  | none => rfl
  | some span =>
    simp only [runInWords, run, setString, Span.deadlineInWords_eq wf told, bind, Except.bind]
    cases span.deadline? (clock 0) <;> rfl

theorem runInWords_expire (told : (clock 0).unixMillis < 2 ^ 63) :
    (expire key span).runInWords clock s = .ok ((expire key span).run clock s) := by
  simp only [runInWords, run, Keyspace.expire]
  by_cases hpos : span.amount ≤ 0
  · rw [if_pos hpos, if_pos hpos]
  · rw [if_neg hpos, if_neg hpos, Span.deadlineInWords_eq (Int64.not_le.mp hpos) told]
    cases span.deadline? (clock 0) with
    | none => rfl
    | some deadline =>
      simp only [bind, Except.bind]
      rcases s.lookup (clock 1) key with ⟨_ | e, t⟩ <;> rfl

/-- A report of time does not fault, unless more is left than a word can tell. -/
theorem runInWords_remaining (key : String) (unit : TimeUnit) :
    (remaining key unit).runInWords clock s = .ok ((remaining key unit).run clock s) ∨
      (remaining key unit).runInWords clock s = .error .range ∧ ¬ s.Reportable (clock 0) key := by
  simp only [runInWords, run, Keyspace.remaining]
  rcases hlookup : s.lookup (clock 1) key with ⟨_ | ⟨data, _ | deadline⟩, t⟩
  · exact .inl rfl
  · exact .inl rfl
  have hlive : s.live? (clock 1) key = some ⟨data, some deadline⟩ := by
    rw [← lookup_fst, hlookup]
  simp only [signed]
  by_cases hleft : (deadline - (clock 0).nanos) / 1000000 < 2 ^ 63
  · have hnonneg : 0 ≤ (Int64.ofNat ((deadline - (clock 0).nanos) / 1000000)).toInt := by
      rw [Int64.toInt_ofNat_of_lt hleft]
      exact Int.natCast_nonneg _
    apply Or.inl
    simp only [if_pos hleft, bind, Except.bind, scaled_eq hnonneg]
    rfl
  · apply Or.inr
    rw [if_neg hleft]
    refine ⟨rfl, ?_⟩
    intro reportable
    exact hleft (reportable deadline (deadline?_of_live? hlive))

/-- **A request in words does not fault**, unless it reports a time that is too long to be told, as
long as the calendar can be told; and it does what it does in integers without bounds. -/
theorem runInWords_eq_or (wf : r.WellFormed) (told : (clock 0).unixMillis < 2 ^ 63)
    (s : Keyspace) :
    r.runInWords clock s = .ok (r.run clock s) ∨
      r.runInWords clock s = .error .range ∧
        ∃ key unit, r = .remaining key unit ∧ ¬ s.Reportable (clock 0) key := by
  cases r with
  | increase key delta => exact .inl (runInWords_increase delta)
  | set key value expiry => exact .inl (runInWords_set wf told)
  | expire key span => exact .inl (runInWords_expire told)
  | remaining key unit =>
    rcases runInWords_remaining key unit with hok | ⟨hfault, hlong⟩
    · exact .inl hok
    · exact .inr ⟨hfault, key, unit, rfl, hlong⟩
  | _ => exact .inl rfl

end Request

/-! ## Commands -/

/-- Runs the command of a name, with its arguments taken by position and with words. -/
def Keyspace.dispatchInWords (clock : Readings) (s : Keyspace) (name : String)
    (args : List String) : Except Fault Outcome :=
  match Command.ofName? name with
  | none => .ok (.error (.command (.unknown name)), s)
  | some command =>
    if command.arity.accepts args.length then do
      match ← (Request.byPosition command args).run with
      | .error fault => return (.error (.command fault), s)
      | .ok r => r.runInWords clock s
    else .ok (.error (.command (.wrongArity name)), s)

/-- A command by position and in words is its request in words. -/
theorem Keyspace.dispatchInWords_eq (clock : Readings) (s : Keyspace) (name : String)
    (args : List String) :
    s.dispatchInWords clock name args =
      match Request.ofCall name args with
      | .error fault => .ok (.error (.command fault), s)
      | .ok r => r.runInWords clock s := by
  unfold dispatchInWords Request.ofCall
  cases Command.ofName? name with
  | none => rfl
  | some command =>
    by_cases haccepts : command.arity.accepts args.length = true
    · simp only [if_pos haccepts, Request.byPosition_eq haccepts]
      cases Request.ofArguments command args <;> rfl
    · simp only [if_neg haccepts]

/-- **Commands never fault.**

* A count of arguments that a command accepts has all the positions that the command takes; and both
  ways to read the arguments make the same request, or refuse it for the same reason.
* Whatever the keyspace, the name and the arguments are, a command by position and in words has an
  outcome, which is the one in integers without bounds: a word that would be too small is an error of
  the command. The one exception is a report of a time that no word can tell.
* No run leads to a keyspace with such a time, if the clock is not set back.

The calendar is taken not to be past its last millisecond. -/
theorem dispatch_never_faults :
    (∀ (command : Command) (args : List String), command.arity.accepts args.length = true →
      Request.byPosition command args = Positional.judged (Request.ofArguments command args)) ∧
    (∀ (clock : Readings) (s : Keyspace) (name : String) (args : List String),
      (clock 0).unixMillis < 2 ^ 63 →
      s.dispatchInWords clock name args = .ok (s.dispatch clock name args) ∨
        s.dispatchInWords clock name args = .error .range ∧
          ∃ key unit, Request.ofCall name args = .ok (.remaining key unit) ∧
            ¬ s.Reportable (clock 0) key) ∧
    ∀ (commands : List Issued) (clock : Readings),
      (∀ c ∈ commands, ∀ i, (c.clock i).nanos ≤ (clock 0).nanos) →
      (clock 0).unixMillis < 2 ^ 63 →
      ∀ (name : String) (args : List String),
        (Keyspace.empty.replay commands).dispatchInWords clock name args =
          .ok ((Keyspace.empty.replay commands).dispatch clock name args) := by
  have hwords (clock : Readings) (s : Keyspace) (name : String) (args : List String)
      (told : (clock 0).unixMillis < 2 ^ 63) :
      s.dispatchInWords clock name args = .ok (s.dispatch clock name args) ∨
        s.dispatchInWords clock name args = .error .range ∧
          ∃ key unit, Request.ofCall name args = .ok (.remaining key unit) ∧
            ¬ s.Reportable (clock 0) key := by
    rw [dispatchInWords_eq, dispatch]
    cases hcall : Request.ofCall name args with
    | error fault => exact .inl rfl
    | ok r =>
      have wf := Request.wellFormed_of_ofCall hcall
      rcases Request.runInWords_eq_or wf told s with hok | ⟨hfault, key, unit, rfl, hlong⟩
      · exact .inl hok
      · exact .inr ⟨hfault, key, unit, rfl, hlong⟩
  refine ⟨fun command args => Request.byPosition_eq, hwords, ?_⟩
  intro commands clock past told name args
  rcases hwords clock (Keyspace.empty.replay commands) name args told with
    hok | ⟨-, key, unit, -, hlong⟩
  · exact hok
  · exact absurd (reportable_replay past key) hlong

/-- A score without its member, and an amount without an opposite: both are errors of the command. -/
theorem dispatch_never_faults_at_bounds :
    Request.byPosition .zadd ["z", "1", "a", "2"] = Positional.judged (.error .malformed) ∧
      (Keyspace.empty.replay [⟨.frozen ⟨0, 0⟩, "SET", ["n", "5"]⟩]).dispatchInWords
          (.frozen ⟨1, 0⟩) "DecrBy" ["n", "-9223372036854775808"] =
        .ok (.error (.command .decrementOverflow),
          Keyspace.empty.replay [⟨.frozen ⟨0, 0⟩, "SET", ["n", "5"]⟩]) := by
  obtain ⟨positions, -, words⟩ := dispatch_never_faults
  have hcall : Request.ofCall "DecrBy" ["n", "-9223372036854775808"] =
      .error .decrementOverflow := by cbv
  refine ⟨positions .zadd ["z", "1", "a", "2"] rfl, ?_⟩
  rw [words [⟨.frozen ⟨0, 0⟩, "SET", ["n", "5"]⟩] (.frozen ⟨1, 0⟩) ?_ (by decide) "DecrBy"
    ["n", "-9223372036854775808"], dispatch, hcall]
  simp [Readings.frozen]

end ScriptStore
