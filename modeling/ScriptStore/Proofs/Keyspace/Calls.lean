import ScriptStore.Proofs.Keyspace.Effect

/-!
# Calls at their times

* `Call`, `Call.issue` — a command by name, issued at one instant; `Call.issue_of_ok` — it is the
  request that it makes.
* `Timely` — calls in the order of their times.
* `Keyspace.after` — the keyspace that calls leave, from an empty one.
* `Issued`, `Keyspace.replay` — a command with its own readings of the clocks, and the keyspace
  after commands in a row.
-/

namespace ScriptStore

/-- A command by name with its arguments, and the moment at which it is issued. -/
structure Call where
  now : Moment
  name : String
  args : List String

/-- Runs a call. All its readings of the clocks show the moment at which it is issued. -/
def Call.issue (c : Call) (s : Keyspace) : Outcome :=
  s.dispatch (.frozen c.now) c.name c.args

namespace Call

variable {c : Call} {r : Request}

/-- A call that asks for nothing leaves everything as it is. -/
theorem issue_of_error {fault : CommandFault} (h : Request.ofCall c.name c.args = .error fault)
    (s : Keyspace) : c.issue s = (.error (.command fault), s) := by
  rw [issue, Keyspace.dispatch, h]

theorem issue_of_ok (h : Request.ofCall c.name c.args = .ok r) (s : Keyspace) :
    c.issue s = r.run (.frozen c.now) s := by
  rw [issue, Keyspace.dispatch, h]

end Call

/-- No call is issued before an earlier one. The calendar may be set back. -/
def Timely (calls : List Call) : Prop :=
  calls.Pairwise fun a b => a.now.nanos ≤ b.now.nanos

instance (calls : List Call) : Decidable (Timely calls) :=
  inferInstanceAs (Decidable (List.Pairwise _ calls))

/-- The keyspace after calls, from an empty one. -/
def Keyspace.after (calls : List Call) : Keyspace :=
  calls.foldl (fun s c => (c.issue s).2) .empty

/-- A command for the keyspace, and the readings of the clocks while it runs. -/
structure Issued where
  clock : Readings
  name : String
  args : List String

/-- Runs a command at its readings of the clocks. -/
def Issued.outcome (c : Issued) (s : Keyspace) : Outcome := s.dispatch c.clock c.name c.args

theorem Issued.outcome_of_ofCall {c : Issued} {r : Request}
    (h : Request.ofCall c.name c.args = .ok r) (s : Keyspace) : c.outcome s = r.run c.clock s := by
  rw [outcome, Keyspace.dispatch, h]

/-- The keyspace after commands in a row. -/
def Keyspace.replay (s : Keyspace) (commands : List Issued) : Keyspace :=
  commands.foldl (fun s c => (s.dispatch c.clock c.name c.args).2) s

theorem Keyspace.replay_cons (s : Keyspace) (c : Issued) (rest : List Issued) :
    s.replay (c :: rest) = (c.outcome s).2.replay rest := rfl

theorem Keyspace.replay_append (s : Keyspace) (first second : List Issued) :
    s.replay (first ++ second) = (s.replay first).replay second :=
  List.foldl_append

end ScriptStore
