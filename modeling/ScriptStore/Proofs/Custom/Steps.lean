import ScriptStore.Proofs.Custom.Issued
import ScriptStore.Proofs.Script.Reaches

/-!
# The steps of a call

A step of a call is one of four: a command that the script waits for, a look at the clocks, a step
of the script, or nothing at all, once the script is over.

* `Invocation.looks` — whether the next step is a look at the clocks.
* `Invocation.step_of_finished`, `step_of_asks`, `step_of_looks`, `step_of_runs` — the four kinds.
* `Invocation.hosted_run` — a call is a run of the interpreter of the library.
* `Invocation.checksTime_of_reset` — there is no look right behind another.
* `Invocation.exists_run_of_reaches` — a call whose time stands still does what its script does.
* `Store.begin_eq` — how a call begins that nothing refuses.
-/

namespace ScriptStore

open Script

variable {i : Invocation} {clock : Readings} {access : StoreAccess} {args : List Val}
  {ending : Ending} {options : Options}

/-- Checked options look at the clock only every so many steps. -/
theorem Options.interval_pos (checked : options.check = .ok options) : 0 < options.interval := by
  unfold check at checked
  split at checked
  · cases checked
  · omega

namespace Invocation

/-- The error of a script that is over and has failed. -/
def failure? (i : Invocation) : Option Error :=
  i.result?.bind fun
    | .ok _ => none
    | .error e => some e

/-- Whether the next step is a look at the clocks. -/
def looks (i : Invocation) : Bool := i.machine.control.isRunning && i.checksTime

theorem step_of_finished (ended : i.machine.control = .finished ending) (clock : Readings) :
    i.step clock = i := by
  simp only [step, ended]

theorem step_of_asks (asks : i.machine.control = .asks access args) (clock : Readings) :
    i.step clock = { i with
      machine := i.machine.answer access (Custom.ask clock i.keyspace access args).1
      keyspace := (Custom.ask clock i.keyspace access args).2 } := by
  simp only [step, asks]

/-- A look at the clocks interrupts a script whose time is up. -/
theorem step_of_looks (looks : i.looks = true) (clock : Readings) :
    i.step clock = { i with
      machine := if i.timeIsUp (clock 0)
        then Machine.interrupt { i.machine with ticks := 0 } timeoutMessage
        else { i.machine with ticks := 0 } } := by
  obtain ⟨hrunning, hcheck⟩ := Bool.and_eq_true_iff.mp looks
  unfold step
  cases hc : i.machine.control with
  | asks access args => rw [hc] at hrunning; cases hrunning
  | finished ending => rw [hc] at hrunning; cases hrunning
  | _ => simp only [hcheck, if_true]

/-- Between two looks the script takes its own steps. -/
theorem step_of_runs (running : i.machine.control.isRunning = true)
    (unchecked : i.checksTime = false) (clock : Readings) :
    i.step clock = { i with machine := i.machine.step } := by
  unfold step
  cases hc : i.machine.control with
  | asks access args => rw [hc] at running; cases running
  | finished ending => rw [hc] at running; cases running
  | _ => simp only [unchecked, Bool.false_eq_true, if_false]

/-- What no step changes. -/
theorem options_step (i : Invocation) (clock : Readings) :
    (i.step clock).options = i.options ∧ (i.step clock).started = i.started := by
  unfold step
  split
  · exact ⟨rfl, rfl⟩
  · exact ⟨rfl, rfl⟩
  · split <;> exact ⟨rfl, rfl⟩

theorem options_run (i : Invocation) (clocks : List Readings) :
    (i.run clocks).options = i.options ∧ (i.run clocks).started = i.started := by
  induction clocks generalizing i with
  | nil => exact ⟨rfl, rfl⟩
  | cons clock clocks ih =>
    obtain ⟨hoptions, hstarted⟩ := ih (i.step clock)
    obtain ⟨hoptions', hstarted'⟩ := i.options_step clock
    exact ⟨hoptions.trans hoptions', hstarted.trans hstarted'⟩

/-- A script that is neither over nor waiting runs the hook, or executes. -/
theorem doing_of_runs (running : i.machine.control.isRunning = true) :
    (interpreter i.options).doing i.machine =
      if i.checksTime then .looks else .executes (i.machine.control.ticks = 1) := by
  unfold interpreter
  cases hc : i.machine.control with
  | asks access args => rw [hc] at running; cases running
  | finished ending => rw [hc] at running; cases running
  | _ => simp only [hc]; rfl

/-- **A call is the interpreter of the library in the hands of the store.** -/
theorem hosted_step (same : i.options = options) (clock : Readings) :
    (i.step clock).hosted options = (i.hosted options).step clock := by
  cases same
  cases hc : i.machine.control with
  | finished ending =>
    have hrests : (interpreter i.options).doing i.machine = .rests := by
      simp only [interpreter, hc]
    rw [step_of_finished hc, Hosted.step_of_rests hrests]
  | asks access args =>
    have hasks : (interpreter i.options).doing i.machine = .asks access args := by
      simp only [interpreter, hc]
    rw [step_of_asks hc]
    simp only [hosted, Hosted.step, hasks]
    rfl
  | _ =>
    have hrunning : i.machine.control.isRunning = true := by rw [hc]; rfl
    have hdoing := doing_of_runs hrunning
    cases hcheck : i.checksTime with
    | true =>
      rw [hcheck] at hdoing
      have hlooks : (interpreter i.options).doing (i.hosted i.options).state = .looks := hdoing
      have hup : (i.hosted i.options).timeIsUp (clock 0) = i.timeIsUp (clock 0) := rfl
      rw [step_of_looks (Bool.and_eq_true_iff.mpr ⟨hrunning, hcheck⟩)]
      simp only [Hosted.step, hlooks, hup]
      cases i.timeIsUp (clock 0) <;> rfl
    | false =>
      rw [hcheck] at hdoing
      rw [step_of_runs hrunning hcheck]
      simp only [Hosted.step, hosted, hdoing]
      rfl

theorem hosted_run (same : i.options = options) (clocks : List Readings) :
    (i.run clocks).hosted options = (i.hosted options).run clocks := by
  induction clocks generalizing i with
  | nil => rfl
  | cons clock clocks ih =>
    have hrest := ih (i := i.step clock) ((i.options_step clock).1.trans same)
    rw [hosted_step same] at hrest
    exact hrest

/-- There is no look at the clocks before the script has taken a step. -/
theorem checksTime_of_reset (valid : 0 < i.options.interval) (reset : i.machine.ticks = 0) :
    i.checksTime = false := by
  simp only [checksTime, reset, Nat.le_zero, Nat.ne_of_gt valid, decide_false, Bool.and_false]

/-! ## Time that stands still -/

/-- No time is up at the moment at which a call has begun. -/
theorem timeIsUp_of_still (still : i.started = (clock 0).nanos) : i.timeIsUp (clock 0) = false := by
  unfold timeIsUp
  split
  · rfl
  · simp [still]

/-- While time stands still, a call takes the steps of its script, some of them after a look at the
clocks. -/
theorem exists_run_step (still : i.started = (clock 0).nanos) (valid : 0 < i.options.interval)
    (running : i.machine.control.isRunning = true) :
    ∃ n ticks, i.run (List.replicate n clock) =
      { i with machine := { i.machine.step with ticks } } := by
  cases hcheck : i.checksTime with
  | false =>
    refine ⟨1, i.machine.step.ticks, ?_⟩
    show i.step clock = _
    rw [step_of_runs running hcheck]
  | true =>
    have hlooks : i.looks = true := Bool.and_eq_true_iff.mpr ⟨running, hcheck⟩
    let reset : Invocation := { i with machine := { i.machine with ticks := 0 } }
    have hfirst : i.step clock = reset := by
      rw [step_of_looks hlooks, timeIsUp_of_still still]
      rfl
    have hunchecked : reset.checksTime = false := checksTime_of_reset valid rfl
    refine ⟨2, reset.machine.step.ticks, ?_⟩
    show (i.step clock).step clock = _
    have hrunning : reset.machine.control.isRunning = true := running
    rw [hfirst, step_of_runs hrunning hunchecked]
    rfl

/-- **A call whose time stands still does what its script does.** -/
theorem exists_run_of_reaches (clock : Readings) {c c' : Snapshot} (reaches : Reaches c c') :
    ∀ i : Invocation, i.started = (clock 0).nanos → 0 < i.options.interval →
      (i.machine.control, i.machine.frames, i.machine.heap) = c →
      ∃ n ticks, i.run (List.replicate n clock) =
        { i with machine := ⟨c'.1, c'.2.1, c'.2.2, ticks⟩ } := by
  induction reaches with
  | refl c =>
    rintro i - - rfl
    exact ⟨0, i.machine.ticks, rfl⟩
  | step running rest ih =>
    intro i still valid same
    cases same
    obtain ⟨n, ticks, hfirst⟩ := exists_run_step still valid running
    obtain ⟨m, ticks', hrest⟩ :=
      ih { i with machine := { i.machine.step with ticks } } still valid rfl
    refine ⟨n + m, ticks', ?_⟩
    rw [← List.replicate_append_replicate, run_append, hfirst, hrest]

/-- A step of a call, and then what its script does. -/
theorem exists_run_of_step {j : Invocation} {c c' : Snapshot} (first : i.step clock = j)
    (reaches : Reaches c c') (still : j.started = (clock 0).nanos) (valid : 0 < j.options.interval)
    (same : (j.machine.control, j.machine.frames, j.machine.heap) = c) :
    ∃ n ticks, i.run (List.replicate n clock) =
      { j with machine := ⟨c'.1, c'.2.1, c'.2.2, ticks⟩ } := by
  obtain ⟨n, ticks, hrun⟩ := exists_run_of_reaches clock reaches j still valid same
  refine ⟨n + 1, ticks, ?_⟩
  rw [List.replicate_succ]
  show (i.step clock).run _ = _
  rw [first, hrun]

end Invocation

/-! ## The beginning -/

/-- A call that nothing refuses begins. -/
theorem Store.begin_eq {s : Store} {env : Environment} {d : Definition} {name : String}
    {values : List Value} {args : List String} (ready : s.scripting.environment = .ok env)
    (texts : Value.arguments values = .ok args) (found : Scripting.find env name args = .ok d)
    (now : Moment) :
    s.begin now name values = .running
      { invocation := .start s.options now.nanos s.keyspace d.chunk env.heap
          (args.take d.keys) (args.drop d.keys)
        definitions := env.definitions } := by
  simp only [Store.begin, texts, ready, found]

end ScriptStore
