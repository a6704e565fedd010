import ScriptStore.Error

/-!
# Options

* `Options` — the time limit of a run of a script, and how often a limited run looks at the clock.
* `Options.check` — refuses options that make no sense.

This is `Options` with its `validate`.
-/

namespace ScriptStore

/-- How scripts run. `timeout` is in milliseconds, and `interval` counts the steps of a limited run
between two looks at the clock. -/
structure Options where
  timeout : Option Nat
  interval : Nat
  deriving DecidableEq, Repr

/-- No limit, and a look at the clock every thousand steps. -/
def Options.default : Options := ⟨none, 1000⟩

/-- Refuses a limit of 0 and an interval of 0. -/
def Options.check (o : Options) : Except Error Options :=
  if o.interval = 0 then .error (.invalidArgument .zeroInterval)
  else if o.timeout = some 0 then .error (.invalidArgument .zeroTimeout)
  else .ok o

end ScriptStore
