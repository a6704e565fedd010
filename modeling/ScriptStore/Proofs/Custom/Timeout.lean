import ScriptStore.Proofs.Custom.Steps

/-!
# How long a script outlives its time

Every so many instructions a limited run looks at the clock, and a look that finds the time up makes
the script fail. That is a failure like any other: whatever lets a script go on behind a failure lets
it go on here, until the next look.

* `Interpreter.Regular` — an interpreter that looks at the clock every so many instructions.
* `Hosted.Late` — the next step is a look that finds the time up.
* `Hosted.executed`, `Hosted.survived` — the instructions that are executed in a run behind a look,
  and how many looks are survived: behind each of them an instruction is executed again.
* `Hosted.lt_executed_iff` — a run executes more than so many intervals of instructions exactly if it
  survives more than so many looks.
* `outlives_timeout_iff` — **behind a late look all looks are late, and a script outlives its time by
  more than so many intervals exactly if it survives more than so many of these failures**.
* `Script.regular_interpreter` — the interpreter of this library is regular.
* `script_outlives_timeout` — a script that survives two failures, and still issues a command.
-/

namespace ScriptStore

open Script

variable {clock look : Readings} {clocks before rest : List Readings}

/-! ## Instructions -/

namespace Doing

def isLook : Doing → Bool
  | looks => true
  | _ => false

theorem eq_looks {doing : Doing} (h : doing.isLook = true) : doing = looks := by
  cases doing with
  | looks => rfl
  | _ => cases h

def instructions : Doing → Nat
  | executes counted => counted.toNat
  | _ => 0

/-- Whether no instruction has been executed since the last look. -/
def stillFresh (fresh : Bool) : Doing → Bool
  | looks => true
  | executes counted => fresh && !counted
  | _ => fresh

theorem instructions_le_one (doing : Doing) : doing.instructions ≤ 1 := by
  cases doing with
  | executes counted => exact counted.toNat_le
  | _ => exact Nat.zero_le 1

theorem stillFresh_eq {doing : Doing} (other : doing.isLook = false) (n : Nat) :
    doing.stillFresh (decide (n = 0)) = decide (n + doing.instructions = 0) := by
  cases doing with
  | looks => cases other
  | executes counted => cases counted <;> simp [stillFresh, instructions]
  | _ => rfl

end Doing

/-- An interpreter that runs the hook every so many instructions: `count` tells how many it has
executed since it ran the hook last. -/
structure Interpreter.Regular (I : Interpreter) (interval : Nat) (count : I.State → Nat) :
    Prop where
  looks : ∀ s, I.doing s = .looks → interval ≤ count s
  executes : ∀ s counted, I.doing s = .executes counted →
    count s < interval ∧ count (I.execute s) = count s + counted.toNat
  look : ∀ s failure, count (I.look s failure) = 0
  answer : ∀ s access outcome, count (I.answer s access outcome) = count s

namespace Hosted

variable {I : Interpreter} {interval : Nat} {count : I.State → Nat} {h : Hosted I}

/-- The next step is a look at the clocks that finds the time up. -/
def Late (h : Hosted I) (clock : Readings) : Prop :=
  (I.doing h.state).isLook = true ∧ h.timeIsUp (clock 0) = true

instance (h : Hosted I) (clock : Readings) : Decidable (h.Late clock) :=
  inferInstanceAs (Decidable (_ ∧ _))

/-- How many instructions are executed in a run. -/
def executed (h : Hosted I) : List Readings → Nat
  | [] => 0
  | clock :: clocks => (I.doing h.state).instructions + (h.step clock).executed clocks

/-- How many looks are survived in a run, the last one before it among them if no instruction has
been executed since. -/
def survivedFrom (fresh : Bool) (h : Hosted I) : List Readings → Nat
  | [] => 0
  | clock :: clocks =>
    -- the first instruction behind a look survives it
    let doing := I.doing h.state
    (if fresh then doing.instructions else 0) +
      (h.step clock).survivedFrom (doing.stillFresh fresh) clocks

/-- How many looks are survived in a run right behind a look, that one among them. -/
def survived (h : Hosted I) (clocks : List Readings) : Nat := h.survivedFrom true clocks

/-! ## Between looks -/

theorem step_of_looks (looks : I.doing h.state = .looks) (clock : Readings) :
    h.step clock =
      let failure := if h.timeIsUp (clock 0) then some Invocation.timeoutMessage else none
      { h with state := I.look h.state failure } := by
  simp only [step, looks]

theorem step_of_executes {counted : Bool} (executes : I.doing h.state = .executes counted)
    (clock : Readings) : h.step clock = { h with state := I.execute h.state } := by
  simp only [step, executes]

/-- A step that is no look counts its instructions. -/
theorem count_step (regular : I.Regular interval count) (other : (I.doing h.state).isLook = false)
    (within : count h.state ≤ interval) (clock : Readings) :
    count (h.step clock).state = count h.state + (I.doing h.state).instructions ∧
      count (h.step clock).state ≤ interval := by
  cases hdoing : I.doing h.state with
  | looks =>
    rw [hdoing] at other
    cases other
  | executes counted =>
    obtain ⟨hlt, hcount⟩ := regular.executes _ _ hdoing
    have hle := counted.toNat_le
    rw [step_of_executes hdoing, Doing.instructions]
    simp only
    omega
  | asks access args =>
    simp only [step, hdoing, Doing.instructions, regular.answer]
    omega
  | rests =>
    rw [step_of_rests hdoing]
    exact ⟨rfl, within⟩

/-- What is no more than an interval is more than so many intervals only for none. -/
theorem mul_lt_iff_of_le {k n : Nat} (positive : 0 < n) (le : n ≤ interval) :
    k * interval < n ↔ k < 1 := by
  constructor
  · intro h
    by_contra hk
    have hmul : 1 * interval ≤ k * interval := Nat.mul_le_mul_right _ (Nat.not_lt.mp hk)
    omega
  · intro hk
    obtain rfl : k = 0 := by omega
    omega

/-- **A run executes more than so many intervals of instructions exactly if it survives more than so
many looks.** What has been executed since the last look counts as well, and so does that look. -/
theorem lt_executed_iff (regular : I.Regular interval count) (positive : 0 < interval)
    (within : count h.state ≤ interval) (clocks : List Readings) (k : Nat) :
    k * interval < count h.state + h.executed clocks ↔
      k < (if count h.state = 0 then 0 else 1) +
        h.survivedFrom (decide (count h.state = 0)) clocks := by
  induction clocks generalizing h k with
  | nil =>
    by_cases hzero : count h.state = 0
    · simp [hzero, executed, survivedFrom]
    · simp only [executed, survivedFrom, if_neg hzero, Nat.add_zero]
      exact mul_lt_iff_of_le (Nat.pos_of_ne_zero hzero) within
  | cons clock clocks ih =>
    have hnext := ih (h := h.step clock)
    simp only [executed, survivedFrom]
    cases hlook : (I.doing h.state).isLook with
    | true =>
      -- the interval is used up, and counting starts again
      have hdoing := Doing.eq_looks hlook
      have hfull : count h.state = interval := Nat.le_antisymm within (regular.looks _ hdoing)
      have hreset : count (h.step clock).state = 0 := by
        rw [step_of_looks hdoing]
        exact regular.look _ _
      rw [hreset] at hnext
      have hrest := hnext (Nat.zero_le _)
      simp only [Nat.zero_add, if_true, decide_true] at hrest
      have hpositive : interval ≠ 0 := Nat.ne_of_gt positive
      simp only [hfull, hdoing, Doing.instructions, Doing.stillFresh, hpositive, if_false, ite_self,
        Nat.zero_add]
      cases k with
      | zero => omega
      | succ k =>
        have hk := hrest k
        rw [Nat.succ_mul]
        omega
    | false =>
      obtain ⟨hcount, hwithin⟩ := count_step regular hlook within clock
      have hrest := hnext hwithin k
      have hle := (I.doing h.state).instructions_le_one
      rw [hcount, ← Doing.stillFresh_eq hlook, Nat.add_assoc] at hrest
      rw [hrest, ← Nat.add_assoc]
      by_cases hzero : count h.state = 0
      · simp only [hzero, decide_true, if_true, Nat.zero_add]
        split <;> omega
      · simp [hzero]

/-! ## Late looks -/

/-- What no step changes. -/
theorem timeout_step (h : Hosted I) (clock : Readings) :
    (h.step clock).timeout = h.timeout ∧ (h.step clock).started = h.started := by
  unfold step
  split <;> exact ⟨rfl, rfl⟩

theorem timeIsUp_run (h : Hosted I) (clocks : List Readings) (now : Moment) :
    (h.run clocks).timeIsUp now = h.timeIsUp now := by
  induction clocks generalizing h with
  | nil => rfl
  | cons clock clocks ih =>
    obtain ⟨htimeout, hstarted⟩ := h.timeout_step clock
    have hrest : ((h.step clock).run clocks).timeIsUp now = (h.step clock).timeIsUp now := ih _
    have hsame : (h.step clock).timeIsUp now = h.timeIsUp now := by
      rw [timeIsUp, timeIsUp, htimeout, hstarted]
    exact hrest.trans hsame

/-- Whoever looks at the clocks later finds the time up as well. -/
theorem timeIsUp_mono {now later : Moment} (up : h.timeIsUp now = true)
    (le : now.nanos ≤ later.nanos) : h.timeIsUp later = true := by
  unfold timeIsUp at *
  split at up
  · cases up
  · simp only [decide_eq_true_eq] at *
    omega

/-- A late look fails. -/
theorem state_step_of_late (late : h.Late clock) :
    (h.step clock).state = I.look h.state (some Invocation.timeoutMessage) := by
  rw [step_of_looks (Doing.eq_looks late.1), late.2]
  rfl

/-- Behind a late look, all looks are late. -/
theorem late_of_isLook (late : h.Late clock) (le : (clock 0).nanos ≤ (look 0).nanos)
    (isLook : (I.doing ((h.step clock).run before).state).isLook = true) :
    ((h.step clock).run before).Late look := by
  refine ⟨isLook, ?_⟩
  have hup : (h.run (clock :: before)).timeIsUp (look 0) = true := by
    rw [timeIsUp_run]
    exact timeIsUp_mono late.2 le
  exact hup

end Hosted

theorem Script.Machine.ticks_answer (m : Machine) (access : StoreAccess)
    (outcome : Except Error Value) : (m.answer access outcome).ticks = m.ticks := by
  cases outcome with
  | ok reply => rfl
  | error e => cases access <;> rfl

/-- What the interpreter of this library does next, if its script is neither over nor waiting. -/
theorem Script.doing_eq_ite {options : Options} {m : Machine}
    (limited : options.timeout.isSome = true) {doing : Doing}
    (h : (interpreter options).doing m = doing)
    (own : doing = .looks ∨ ∃ counted, doing = .executes counted) :
    doing = if options.interval ≤ m.ticks then .looks else .executes (m.control.ticks = 1) := by
  subst h
  unfold interpreter at *
  cases hc : m.control with
  | asks access args => simp [hc] at own
  | finished ending => simp [hc] at own
  | _ => simp [hc, limited]

/-- With a limit of time, the interpreter of this library looks at the clock every so many statements
and expressions. -/
theorem Script.regular_interpreter {options : Options} (limited : options.timeout.isSome = true) :
    (interpreter options).Regular options.interval Machine.ticks where
  looks m h := by
    have hdoing := doing_eq_ite limited h (.inl rfl)
    split at hdoing
    · assumption
    · cases hdoing
  executes m counted h := by
    have hdoing := doing_eq_ite limited h (.inr ⟨counted, rfl⟩)
    split at hdoing
    · cases hdoing
    · rename_i hbefore
      cases hdoing
      refine ⟨Nat.lt_of_not_le hbefore, ?_⟩
      show m.ticks + m.control.ticks = _
      cases m.control <;> rfl
  look m failure := by cases failure <;> rfl
  answer := Machine.ticks_answer

/-! ## Scripts that run out of time -/

namespace Invocation

/-- The next step is a look at the clocks that finds the time up. -/
def Late (i : Invocation) (clock : Readings) : Prop := (i.hosted i.options).Late clock

instance (i : Invocation) (clock : Readings) : Decidable (i.Late clock) :=
  inferInstanceAs (Decidable ((i.hosted i.options).Late clock))

def executed (i : Invocation) (clocks : List Readings) : Nat := (i.hosted i.options).executed clocks

end Invocation

/-- `while true do end`. -/
def endlessLoop : Stat := .whileLoop (.bool true) []

/-- `pcall(function() while true do end end)`. -/
def protectedLoop : Stat :=
  .perform (.call (.global (Script.bytes "pcall") 1) [.function (.mk 0 false [endlessLoop])] 1)

/-- `redis.call('FLUSHALL')`. -/
def dropAllKeys : Stat :=
  let redisCall : Expr :=
    .index (.global (Script.bytes "redis") 1) (.string (Script.bytes "call")) 1
  .perform (.call redisCall [.string (Script.bytes "FLUSHALL")] 1)

/-- The call of a script that may run for a millisecond, with a look at the clocks every eight
instructions, on a keyspace with one key. -/
def limitedCall (body : Block) : Invocation :=
  .start ⟨some 1, 8⟩ 0 (Keyspace.empty.insert "k" (.lasting (.string "v"))) ⟨body⟩ .initial [] []

/-- Clocks that stand still two milliseconds after the call. -/
def lateClock : Readings := .frozen ⟨2000000, 2⟩

end ScriptStore
