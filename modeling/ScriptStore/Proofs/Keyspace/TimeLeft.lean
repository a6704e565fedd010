import Mathlib
import ScriptStore.Proofs.Keyspace.Counter
import ScriptStore.Proofs.Keyspace.Expiry
import ScriptStore.Proofs.Keyspace.View

/-!
# The time that a key has left

A key's time is reported in milliseconds, rounded down, or in seconds, rounded to the nearest. Two
negative numbers stand for a key that does not expire and for one that is not there, and no report
of a time is ever taken for one of them.

* `Issued.grant?`, `Keyspace.lastGrant?` — the span that a command gives a key to live, and the last
  such span in a run.
* `Keyspace.deadline?_replay` — **a deadline is the end of the last span that was given**. With it,
  no time that is left exceeds 64 bits.
* `Keyspace.timeLeft` — the report without bounds, by the clock alone: it never increases
  (`Keyspace.timeLeft_antitone`).
* `Keyspace.Unwritten` — commands of which none writes to a key.
* `remaining_time_is_exact` — **both reports are exact at each moment after a run, and while nobody
  writes to the key they never increase and change to the report of a missing key exactly at the
  deadline**.
* `remaining_time_beyond_requests` — the rounding of seconds stops at the greatest integer, and a
  request that is refused grants nothing.
-/

namespace ScriptStore

open Keyspace

variable {clock : Readings} {now later asked : Moment} {s t u : Keyspace} {key : String} {d : Nat}
  {e : Entry} {r : Request} {c : Issued} {commands more : List Issued} {span : Span}
  {unit : TimeUnit}

/-! ## Grants -/

/-- The span that a request gives a key to live. -/
def Request.grants? (key : String) : Request → Option Span
  | .set key' _ expiry => if key' = key then expiry else none
  | .expire key' span => if key' = key ∧ 0 < span.amount then some span else none
  | _ => none

/-- The span that a command gives a key to live, and the moment at which the span begins. A command
that fails gives none. -/
def Issued.grant? (key : String) (s : Keyspace) (c : Issued) : Option (Moment × Span) :=
  match Request.ofCall c.name c.args with
  | .error _ => none
  | .ok r => if (c.outcome s).1.isOk then (r.grants? key).map (c.clock 0, ·) else none

namespace Keyspace

/-- The last grant to a key among commands in a row. -/
def lastGrant? (key : String) (s : Keyspace) : List Issued → Option (Moment × Span)
  | [] => none
  | c :: rest => ((c.outcome s).2.lastGrant? key rest).or (c.grant? key s)

theorem lastGrant?_snoc (key : String) (s : Keyspace) (commands : List Issued) (c : Issued) :
    s.lastGrant? key (commands ++ [c]) =
      (c.grant? key (s.replay commands)).or (s.lastGrant? key commands) := by
  induction commands generalizing s with
  | nil => simp [lastGrant?, replay]
  | cons first rest ih =>
    rw [List.cons_append, lastGrant?, ih, lastGrant?, replay_cons, Option.or_assoc]

/-! ## Where deadlines come from -/

/-- The deadline that is kept under a key. -/
def deadline? (s : Keyspace) (key : String) : Option Nat := s.entries[key]?.bind Entry.deadline

/-- A key's deadline is the one from before, or it has none. -/
def Inherits (key : String) (s t : Keyspace) : Prop :=
  t.deadline? key = s.deadline? key ∨ t.deadline? key = none

namespace Inherits

theorem trans (h : Inherits key s t) (h' : Inherits key t u) : Inherits key s u := by
  rcases h' with h' | h'
  · exact h.imp h'.trans h'.trans
  · exact .inr h'

theorem of_leavesAt (h : LeavesAt key clock s t) : Inherits key s t := by
  rcases h with hsame | ⟨hdropped, -⟩
  · exact .inl (by rw [deadline?, hsame, deadline?])
  · exact .inr (by rw [deadline?, hdropped, Option.bind_none])

theorem lookup (s : Keyspace) (now : Moment) (key : String) :
    Inherits key s (s.lookup now key).2 :=
  of_leavesAt (.lookup s (fun _ => now) 0 key key)

theorem insert_lasting (s t : Keyspace) (key : String) (data : Data) :
    Inherits key s (t.insert key (.lasting data)) := by
  refine .inr ?_
  rw [deadline?, entries_insert, if_pos rfl]
  rfl

/-- Other data in the place of those that a lookup has found. -/
theorem insert_data (h : s.lookup now key = (some e, t)) (data : Data) :
    Inherits key s (t.insert key { e with data }) := by
  have hlive : s.live? now key = some e := by rw [← lookup_fst, h]
  refine .inl ?_
  rw [deadline?, entries_insert, if_pos rfl, deadline?, (live?_eq_some_iff.mp hlive).1]
  rfl

theorem increase (clock : Readings) (s : Keyspace) (key : String) (delta : Int64) :
    Inherits key s (s.increase clock key delta).2 := by
  have hfirst := lookup s (clock 0) key
  simp only [Keyspace.increase]
  split
  · exact hfirst
  · split
    · exact hfirst
    · split
      · rename_i hlookup
        exact hfirst.trans (insert_data hlookup _)
      · exact insert_lasting s _ key _

theorem ensure (s : Keyspace) (now : Moment) (key : String) (data : Data) :
    Inherits key s (s.ensure now key data) := by
  cases hlive : s.live? now key with
  | some e => exact .inl (by rw [ensure_of_live? hlive])
  | none =>
    rw [ensure_of_live?_none hlive]
    exact insert_lasting s _ key data

theorem grow (clock : Readings) (s : Keyspace) (key : String) (a : Addition) :
    Inherits key s (s.grow clock key a).2 := by
  have hfirst := ensure s (clock 0) key a.fresh
  have hsecond := hfirst.trans (lookup _ (clock 1) key)
  unfold Keyspace.grow
  split
  · rename_i hlookup
    rwa [hlookup] at hsecond
  · rename_i hlookup
    split
    · rwa [hlookup] at hsecond
    · exact hfirst.trans (insert_data hlookup _)

theorem persist (clock : Readings) (s : Keyspace) (key : String) :
    Inherits key s (s.persist clock key).2 := by
  have hlookup := lookup s (clock 0) key
  unfold Keyspace.persist
  split
  · exact insert_lasting s _ key _
  · rename_i heq
    rwa [heq] at hlookup

end Inherits

end Keyspace

/-- After an outcome, the deadline of a key is the end of the span that has been granted, or it is
the one from before and nothing has been granted. -/
def DeadlineFrom (clock : Readings) (s : Keyspace) (key : String) (granted : Option Span)
    (o : Outcome) : Prop :=
  ∀ d, o.2.deadline? key = some d →
    (∃ span, o.1.isOk = true ∧ granted = some span ∧ 0 < span.amount ∧
      span.deadline? (clock 0) = some d) ∨
    (o.1.isOk = true → granted = none) ∧ s.deadline? key = some d

namespace DeadlineFrom

variable {granted : Option Span} {o : Outcome}

theorem of_inherits (hnone : o.1.isOk = true → granted = none) (h : Inherits key s o.2) :
    DeadlineFrom clock s key granted o := by
  intro d hd
  refine .inr ⟨hnone, ?_⟩
  rcases h with hsame | hgone
  · rw [← hsame, hd]
  · rw [hgone] at hd
    cases hd

theorem setString (clock : Readings) (s : Keyspace) (key value : String) (expiry : Option Span)
    (wf : (Request.set key value expiry).WellFormed) :
    DeadlineFrom clock s key expiry (s.setString clock key value expiry) := by
  unfold Keyspace.setString
  split
  · exact of_inherits (fun _ => rfl) (.insert_lasting s s key _)
  · rename_i span
    split
    · exact of_inherits (fun h => absurd h Bool.false_ne_true) (.inl rfl)
    · rename_i deadline hdeadline
      intro d hd
      rw [deadline?, entries_insert, if_pos rfl] at hd
      cases hd
      exact .inl ⟨span, rfl, rfl, wf, hdeadline⟩

theorem expire (clock : Readings) (s : Keyspace) (key : String) (span : Span) :
    DeadlineFrom clock s key (if 0 < span.amount then some span else none)
      (s.expire clock key span) := by
  by_cases nonpos : span.amount ≤ 0
  · have hnot : ¬ 0 < span.amount := Int64.not_lt.mpr nonpos
    rw [if_neg hnot, Keyspace.expire, if_pos nonpos]
    refine of_inherits (fun _ => rfl) (.inr ?_)
    simp only [deadline?, entries_remove, if_true, Option.bind_none]
  · have pos : 0 < span.amount := Int64.not_le.mp nonpos
    rw [if_pos pos, Keyspace.expire, if_neg nonpos]
    split
    · exact of_inherits (fun h => absurd h Bool.false_ne_true) (.inl rfl)
    · rename_i deadline hdeadline
      split
      · rename_i t hlookup
        -- the key has gone, and its deadline with it
        have hgone : s.live? (clock 1) key = none := by rw [← lookup_fst, hlookup]
        have hentry := entries_lookup_self s (clock 1) key
        rw [hlookup, hgone] at hentry
        intro d hd
        rw [deadline?, hentry] at hd
        cases hd
      · intro d hd
        rw [deadline?, entries_insert, if_pos rfl] at hd
        cases hd
        exact .inl ⟨span, rfl, rfl, pos, hdeadline⟩

end DeadlineFrom

/-- A request that does not write to a key grants it nothing. -/
theorem Request.grants?_of_onlyCounts (only : r.OnlyCounts key) : r.grants? key = none := by
  cases r with
  | set key' value expiry => exact if_neg only
  | expire key' span => exact if_neg fun h => only h.1
  | _ => rfl

/-- **After a request, a deadline is the end of the span that the request gives, or the one from
before.** -/
theorem Request.deadlineFrom_run (wf : r.WellFormed) (clock : Readings) (s : Keyspace)
    (key : String) : DeadlineFrom clock s key (r.grants? key) (r.run clock s) := by
  rcases r.leaves_or_writesTo key with ⟨only, hr⟩ | writes
  · exact .of_inherits (fun _ => grants?_of_onlyCounts only)
      (.of_leavesAt (leavesAt_run only hr clock s))
  cases writes with
  | set value expiry =>
    rw [grants?, if_pos rfl]
    exact .setString clock s key value expiry wf
  | expire span =>
    simp only [grants?, true_and]
    exact .expire clock s key span
  | persist => exact .of_inherits (fun _ => rfl) (.persist clock s key)
  | increase delta => exact .of_inherits (fun _ => rfl) (.increase clock s key delta)
  | setAdd members =>
    rw [run, setAdd_eq_grow]
    exact .of_inherits (fun _ => rfl) (.grow clock s key _)
  | sortedAdd pairs =>
    rw [run, sortedAdd_eq_grow]
    exact .of_inherits (fun _ => rfl) (.grow clock s key _)
  | del mem =>
    refine .of_inherits (fun _ => rfl) (.inr ?_)
    simp only [run, deadline?, entries_removeAll, if_pos mem, Option.bind_none]
  | clear => exact .of_inherits (fun _ => rfl) (.inr (by simp [run, deadline?]))

/-- A command either grants a key its deadline, or grants it nothing and leaves it the one from
before. -/
theorem Issued.deadline?_outcome (h : (c.outcome s).2.deadline? key = some d) :
    (∃ span, c.grant? key s = some (c.clock 0, span) ∧ 0 < span.amount ∧
        span.deadline? (c.clock 0) = some d) ∨
      c.grant? key s = none ∧ s.deadline? key = some d := by
  cases hcall : Request.ofCall c.name c.args with
  | error fault =>
    have houtcome : c.outcome s = (.error (.command fault), s) := by rw [outcome, dispatch, hcall]
    rw [houtcome] at h
    exact .inr ⟨by simp only [grant?, hcall], h⟩
  | ok r =>
    simp only [grant?, hcall, outcome_of_ofCall hcall]
    rw [outcome_of_ofCall hcall] at h
    rcases r.deadlineFrom_run (Request.wellFormed_of_ofCall hcall) c.clock s key d h with
      ⟨span, hok, hspan, pos, hdeadline⟩ | ⟨hnone, hsame⟩
    · exact .inl ⟨span, by rw [if_pos hok, hspan, Option.map_some], pos, hdeadline⟩
    · refine .inr ⟨?_, hsame⟩
      split
      · rename_i hok
        rw [hnone hok, Option.map_none]
      · rfl

/-- **After a run, a deadline is the end of the last span that was granted.** -/
theorem Keyspace.deadline?_replay (commands : List Issued) :
    ∀ d, (Keyspace.empty.replay commands).deadline? key = some d →
      ∃ c ∈ commands, ∃ span, Keyspace.empty.lastGrant? key commands = some (c.clock 0, span) ∧
        0 < span.amount ∧ span.deadline? (c.clock 0) = some d := by
  induction commands using List.reverseRecOn with
  | nil =>
    intro d h
    simp [replay, Keyspace.empty, deadline?] at h
  | append_singleton commands c ih =>
    intro d h
    rw [replay_append] at h
    rw [lastGrant?_snoc]
    rcases Issued.deadline?_outcome h with ⟨span, hgrant, pos, hdeadline⟩ | ⟨hnone, hsame⟩
    · exact ⟨c, by simp, span, by rw [hgrant, Option.some_or], pos, hdeadline⟩
    · obtain ⟨c', hc', span, hlast, hgrant⟩ := ih d hsame
      exact ⟨c', by simp [hc'], span, by rw [hnone, Option.none_or, hlast], hgrant⟩

/-! ## Reports -/

/-- The command that reports in a unit. -/
def TimeUnit.reporting : TimeUnit → Command
  | seconds => .ttl
  | millis => .pttl

namespace Keyspace

theorem inUnit_nonneg {millis : Int} (h : 0 ≤ millis) (unit : TimeUnit) :
    0 ≤ inUnit millis unit := by
  cases unit with
  | millis => exact h
  | seconds =>
    simp only [inUnit]
    omega

theorem inUnit_mono {millis millis' : Int} (h : millis ≤ millis') (unit : TimeUnit) :
    inUnit millis unit ≤ inUnit millis' unit := by
  cases unit with
  | millis => exact h
  | seconds =>
    simp only [inUnit]
    omega

theorem inUnit_lt {millis : Int} (h : millis < 2 ^ 63) (unit : TimeUnit) :
    inUnit millis unit < 2 ^ 63 := by
  cases unit with
  | millis => exact h
  | seconds =>
    simp only [inUnit]
    omega

/-- The time that a key has left at a moment, -1 if it does not expire, and -2 if it is not
there. -/
def timeLeft (s : Keyspace) (now : Moment) (key : String) (unit : TimeUnit) : Int :=
  match s.live? now key with
  | none => -2
  | some ⟨_, none⟩ => -1
  | some ⟨_, some d⟩ => inUnit ((d - now.nanos) / 1000000 : Nat) unit

theorem timeLeft_congr (h : s.live? now key = t.live? now key) (unit : TimeUnit) :
    s.timeLeft now key unit = t.timeLeft now key unit := by
  rw [timeLeft, h, timeLeft]

/-- A key is not there if nothing is kept under it, or if its deadline has been reached. -/
theorem live?_eq_none_iff_deadline : s.live? now key = none ↔
    s.entries[key]? = none ∨ ∃ d, s.deadline? key = some d ∧ d ≤ now.nanos := by
  unfold live? deadline?
  cases hentry : s.entries[key]? with
  | none => simp
  | some e =>
    obtain ⟨data, _ | d⟩ := e
    · simp [Entry.expired]
    · simp [Entry.expired]

theorem deadline?_of_live? (h : s.live? now key = some e) : s.deadline? key = e.deadline := by
  rw [deadline?, (live?_eq_some_iff.mp h).1, Option.bind_some]

theorem timeLeft_eq_neg_two_iff : s.timeLeft now key unit = -2 ↔ s.live? now key = none := by
  unfold timeLeft
  split
  · rename_i hgone
    simp [hgone]
  · rename_i hlive
    simp [hlive]
  · rename_i d hlive
    have hnonneg := inUnit_nonneg (Int.natCast_nonneg ((d - now.nanos) / 1000000)) unit
    rw [hlive]
    simp only [reduceCtorEq, iff_false]
    omega

theorem timeLeft_eq_neg_one_iff : s.timeLeft now key unit = -1 ↔
    ∃ e, s.entries[key]? = some e ∧ e.deadline = none := by
  unfold timeLeft
  split
  · rename_i hgone
    simp only [Int.reduceNeg, Int.reduceEq, false_iff, not_exists, not_and]
    intro e hentry hlasting
    have hexpired := live?_eq_none_iff.mp hgone e hentry
    simp [Entry.expired, hlasting] at hexpired
  · rename_i data hlive
    exact iff_of_true rfl ⟨_, (live?_eq_some_iff.mp hlive).1, rfl⟩
  · rename_i data d hlive
    have hnonneg := inUnit_nonneg (Int.natCast_nonneg ((d - now.nanos) / 1000000)) unit
    rw [(live?_eq_some_iff.mp hlive).1]
    simp only [Option.some.injEq, exists_eq_left', reduceCtorEq, iff_false]
    omega

theorem timeLeft_of_deadline (h : s.deadline? key = some d) (ahead : now.nanos < d) :
    s.timeLeft now key unit = inUnit ((d - now.nanos) / 1000000 : Nat) unit := by
  obtain ⟨⟨data, deadline⟩, hentry, rfl⟩ := Option.bind_eq_some_iff.mp h
  have hlive : s.live? now key = some ⟨data, some d⟩ :=
    live?_eq_some_iff.mpr ⟨hentry, by simp [Entry.expired, ahead]⟩
  rw [timeLeft, hlive]

/-- **The time that is left never increases.** -/
theorem timeLeft_antitone (le : now.nanos ≤ later.nanos) (s : Keyspace) (key : String)
    (unit : TimeUnit) : s.timeLeft later key unit ≤ s.timeLeft now key unit := by
  cases hlater : s.live? later key with
  | some e =>
    have hnow := live?_of_le le hlater
    simp only [timeLeft, hlater, hnow]
    obtain ⟨data, _ | d⟩ := e
    · exact Int.le_refl _
    · have hless : (d - later.nanos) / 1000000 ≤ (d - now.nanos) / 1000000 := by omega
      exact inUnit_mono (by exact_mod_cast hless) unit
  | none =>
    rw [timeLeft_eq_neg_two_iff.mpr hlater, timeLeft]
    split
    · omega
    · omega
    · rename_i d hlive
      have hnonneg := inUnit_nonneg (Int.natCast_nonneg ((d - now.nanos) / 1000000)) unit
      omega

/-- A key has gone at a later moment if it had gone before, or if its deadline has been reached
since. -/
theorem live?_eq_none_iff_of_le (le : now.nanos ≤ later.nanos) : s.live? later key = none ↔
    s.live? now key = none ∨ ∃ d, s.deadline? key = some d ∧ d ≤ later.nanos := by
  constructor
  · intro hgone
    exact (live?_eq_none_iff_deadline.mp hgone).imp_left fun hnone =>
      live?_eq_none_iff_deadline.mpr (.inl hnone)
  · rintro (hgone | hreached)
    · exact live?_eq_none_mono le hgone
    · exact live?_eq_none_iff_deadline.mpr (.inr hreached)

/-- What is left until the deadline of a key fits into 64 bits. -/
def Reportable (s : Keyspace) (now : Moment) (key : String) : Prop :=
  ∀ d, s.deadline? key = some d → (d - now.nanos) / 1000000 < 2 ^ 63

namespace Reportable

variable (h : s.Reportable now key)
include h

theorem toInt_timeLeft (unit : TimeUnit) :
    (Int64.ofInt (s.timeLeft now key unit)).toInt = s.timeLeft now key unit := by
  have hbounds : -2 ≤ s.timeLeft now key unit ∧ s.timeLeft now key unit < 2 ^ 63 := by
    unfold timeLeft
    split
    · omega
    · omega
    · rename_i d hlive
      have hlt := h d (deadline?_of_live? hlive)
      have hnonneg := inUnit_nonneg (Int.natCast_nonneg ((d - now.nanos) / 1000000)) unit
      exact ⟨by omega, inUnit_lt (by omega) unit⟩
  exact Int64.toInt_ofInt_of_le (by omega) hbounds.2

/-- The effect of a report tells the time that is left. -/
theorem timeLeft_live? (unit : TimeUnit) :
    Request.timeLeft now unit (s.live? now key) = s.timeLeft now key unit := by
  unfold timeLeft
  split
  · rename_i hgone
    rw [hgone, Request.timeLeft]
  · rename_i hlive
    rw [hlive, Request.timeLeft]
  · rename_i d hlive
    rw [hlive, Request.timeLeft, Int64.toInt_ofNat_of_lt (h d (deadline?_of_live? hlive))]

/-- **A report tells the time that is left.** -/
theorem reply (unit : TimeUnit) {name : String}
    (named : Command.ofName? name = some unit.reporting) :
    ∃ n : Int64, (s.dispatch (.frozen now) name [key]).1 = .ok (.integer n) ∧
      n.toInt = s.timeLeft now key unit := by
  have hcall : Request.ofCall name [key] = .ok (.remaining key unit) := by
    have haccepts : unit.reporting.arity.accepts [key].length = true := by cases unit <;> rfl
    simp only [Request.ofCall, named, haccepts, if_true]
    cases unit <;> rfl
  refine ⟨Int64.ofInt (s.timeLeft now key unit), ?_, h.toInt_timeLeft unit⟩
  have hreply := Request.reply_run (r := .remaining key unit) trivial rfl now s
  rw [dispatch, hcall]
  rw [hreply, Request.effect, h.timeLeft_live? unit]

/-- Milliseconds and seconds that are reported at the same moment. -/
theorem replies {pttl ttl : String} (inMillis : Command.ofName? pttl = some .pttl)
    (inSeconds : Command.ofName? ttl = some .ttl) :
    ∃ millis seconds : Int64, (s.dispatch (.frozen now) pttl [key]).1 = .ok (.integer millis) ∧
      (s.dispatch (.frozen now) ttl [key]).1 = .ok (.integer seconds) ∧
      millis.toInt = s.timeLeft now key .millis ∧ seconds.toInt = s.timeLeft now key .seconds := by
  obtain ⟨millis, hmillis, hm⟩ := h.reply .millis inMillis
  obtain ⟨seconds, hseconds, hs⟩ := h.reply .seconds inSeconds
  exact ⟨millis, seconds, hmillis, hseconds, hm, hs⟩

end Reportable

theorem eq_neg_two_iff {n : Int64} (h : n.toInt = s.timeLeft now key unit) :
    n = -2 ↔ s.live? now key = none := by
  rw [← Int64.toInt_inj, h]
  exact timeLeft_eq_neg_two_iff

theorem eq_neg_one_iff {n : Int64} (h : n.toInt = s.timeLeft now key unit) :
    n = -1 ↔ ∃ e, s.entries[key]? = some e ∧ e.deadline = none := by
  rw [← Int64.toInt_inj, h]
  exact timeLeft_eq_neg_one_iff

end Keyspace

/-! ## Commands that do not write to a key -/

/-- A command that asks for no write to a key. -/
def Issued.Leaves (key : String) (c : Issued) : Prop :=
  c.OnlyCounts key ∧ ¬ ∃ n, Request.ofCall c.name c.args = .ok (.increase key n)

/-- Commands in a row of which none writes to a key: each asks for no write to it, or fails. -/
def Keyspace.Unwritten (key : String) : Keyspace → List Issued → Prop
  | _, [] => True
  | s, c :: rest =>
    (c.Leaves key ∨ (c.outcome s).1.isOk = false) ∧ (c.outcome s).2.Unwritten key rest

/-- No moment from a command on that does not write to a key shows a difference. -/
theorem Issued.live?_outcome (past : ∀ i, (c.clock i).nanos ≤ now.nanos)
    (h : c.Leaves key ∨ (c.outcome s).1.isOk = false) :
    (c.outcome s).2.live? now key = s.live? now key := by
  rcases h with ⟨only, counts⟩ | failed
  · rcases c.leavesAt_outcome only counts s with hsame | ⟨hdropped, i, hgone⟩
    · exact live?_congr hsame
    · rw [live?_eq_none_mono (past i) hgone, live?, hdropped, Option.filter_none]
  · cases hreply : (c.outcome s).1 with
    | ok v =>
      rw [hreply] at failed
      cases failed
    | error fault => exact (sheds_of_dispatch_eq_error past hreply).live?_eq key

theorem Keyspace.live?_replay (past : ∀ c ∈ more, ∀ i, (c.clock i).nanos ≤ now.nanos)
    (h : s.Unwritten key more) : (s.replay more).live? now key = s.live? now key := by
  induction more generalizing s with
  | nil => rfl
  | cons c rest ih =>
    obtain ⟨hfirst, hrest⟩ := h
    have hstep := Issued.live?_outcome (past c (by simp)) hfirst
    exact (ih (fun d hd => past d (by simp [hd])) hrest).trans hstep

/-- While nobody writes to a key, the time that it has left never increases. -/
theorem Keyspace.timeLeft_replay_le (past : ∀ c ∈ more, ∀ i, (c.clock i).nanos ≤ later.nanos)
    (unwritten : s.Unwritten key more) (le : now.nanos ≤ later.nanos) (unit : TimeUnit) :
    (s.replay more).timeLeft later key unit ≤ s.timeLeft now key unit := by
  rw [timeLeft_congr (live?_replay past unwritten)]
  exact timeLeft_antitone le s key unit

/-! ## Exact reports -/

/-- After a run, what is left until a deadline is no more than what was granted last. -/
theorem Keyspace.exists_grant (past : ∀ c ∈ commands, ∀ i, (c.clock i).nanos ≤ now.nanos)
    (h : (Keyspace.empty.replay commands).deadline? key = some d) :
    ∃ asked span, Keyspace.empty.lastGrant? key commands = some (asked, span) ∧
      d = span.endsAt asked ∧ span.Fits asked ∧
      ((d - now.nanos) / 1000000 : Nat) ≤ span.inMillis := by
  obtain ⟨c, hc, span, hlast, pos, hdeadline⟩ := deadline?_replay commands d h
  have hfits : span.Fits (c.clock 0) := by
    by_contra hnot
    rw [Span.deadline?_of_not_fits hnot] at hdeadline
    cases hdeadline
  have hends := Span.eq_endsAt_of_deadline? hdeadline
  refine ⟨c.clock 0, span, hlast, hends, hfits, ?_⟩
  have hpast := past c hc 0
  have hpos := Span.inMillis_pos pos
  rw [Span.endsAt] at hends
  omega

theorem Keyspace.reportable_replay (past : ∀ c ∈ commands, ∀ i, (c.clock i).nanos ≤ now.nanos)
    (key : String) : (Keyspace.empty.replay commands).Reportable now key := by
  intro d hd
  obtain ⟨asked, span, -, -, hfits, hle⟩ := exists_grant past hd
  have hlimit : span.inMillis + asked.unixMillis ≤ 2 ^ 63 - 1 := hfits
  omega

/-- **Reports of the time that a key has left are exact.** After any run, at any moment that is no
earlier than the readings of its commands, one command reports milliseconds and the other seconds.

* Both report -2 exactly if nothing is kept under the key or its deadline has been reached, and -1
  exactly if something is kept there without a deadline.
* Otherwise the deadline is the end of the last span that was granted. The milliseconds are those
  from now until then, rounded down, and no more than the span. The seconds are the milliseconds
  rounded to the nearest; only if the span was granted within the first half second of the calendar
  may the sum that is rounded stop at the greatest integer of 64 bits.
* If nobody writes to the key, both reports are no greater at a later moment, and they are -2 from
  the deadline on and not before. -/
theorem remaining_time_is_exact {commands : List Issued} {now : Moment} {pttl ttl : String}
    (past : ∀ c ∈ commands, ∀ i, (c.clock i).nanos ≤ now.nanos)
    (inMillis : Command.ofName? pttl = some .pttl) (inSeconds : Command.ofName? ttl = some .ttl)
    (key : String) :
    let s := Keyspace.empty.replay commands
    ∃ millis seconds : Int64,
      (s.dispatch (.frozen now) pttl [key]).1 = .ok (.integer millis) ∧
      (s.dispatch (.frozen now) ttl [key]).1 = .ok (.integer seconds) ∧
      (millis = -2 ↔ s.entries[key]? = none ∨ ∃ d, s.deadline? key = some d ∧ d ≤ now.nanos) ∧
      (millis = -1 ↔ ∃ e, s.entries[key]? = some e ∧ e.deadline = none) ∧
      (seconds = -2 ↔ millis = -2) ∧ (seconds = -1 ↔ millis = -1) ∧
      (∀ d, s.deadline? key = some d → now.nanos < d →
        ∃ asked span, Keyspace.empty.lastGrant? key commands = some (asked, span) ∧
          d = span.endsAt asked ∧ millis.toInt = ((d - now.nanos) / 1000000 : Nat) ∧
          0 ≤ millis.toInt ∧ millis.toInt ≤ span.inMillis ∧
          seconds.toInt = min (millis.toInt + 500) (2 ^ 63 - 1) / 1000 ∧
          (500 ≤ asked.unixMillis → seconds.toInt = (millis.toInt + 500) / 1000)) ∧
      ∀ (more : List Issued) (later : Moment), now.nanos ≤ later.nanos → s.Unwritten key more →
        (∀ c ∈ more, ∀ i, (c.clock i).nanos ≤ later.nanos) →
        let t := s.replay more
        ∃ millis' seconds' : Int64,
          (t.dispatch (.frozen later) pttl [key]).1 = .ok (.integer millis') ∧
          (t.dispatch (.frozen later) ttl [key]).1 = .ok (.integer seconds') ∧
          millis' ≤ millis ∧ seconds' ≤ seconds ∧
          (millis' = -2 ↔ millis = -2 ∨ ∃ d, s.deadline? key = some d ∧ d ≤ later.nanos) ∧
          (seconds' = -2 ↔ millis' = -2) := by
  intro s
  obtain ⟨millis, seconds, hmillis, hseconds, hm, hs⟩ :=
    (reportable_replay past key).replies inMillis inSeconds
  refine ⟨millis, seconds, hmillis, hseconds,
    (eq_neg_two_iff hm).trans live?_eq_none_iff_deadline, eq_neg_one_iff hm, ?_, ?_, ?_, ?_⟩
  · rw [eq_neg_two_iff hs, eq_neg_two_iff hm]
  · rw [eq_neg_one_iff hs, eq_neg_one_iff hm]
  · intro d hd ahead
    obtain ⟨asked, span, hlast, hends, hfits, hle⟩ := exists_grant past hd
    have hlimit : span.inMillis + asked.unixMillis ≤ 2 ^ 63 - 1 := hfits
    rw [timeLeft_of_deadline hd ahead] at hm hs
    have hm' : millis.toInt = ((d - now.nanos) / 1000000 : Nat) := hm
    have hs' : seconds.toInt = min (millis.toInt + 500) (2 ^ 63 - 1) / 1000 := by rw [hs, hm']; rfl
    refine ⟨asked, span, hlast, hends, hm', by omega, by omega, hs', ?_⟩
    intro hsince
    rw [hs']
    omega
  · intro more later le unwritten hlater t
    have ht : t = Keyspace.empty.replay (commands ++ more) := (replay_append _ _ _).symm
    have hpast : ∀ c ∈ commands ++ more, ∀ i, (c.clock i).nanos ≤ later.nanos :=
      List.forall_mem_append.mpr ⟨fun c hc i => (past c hc i).trans le, hlater⟩
    have hreport := reportable_replay hpast key
    rw [← ht] at hreport
    obtain ⟨millis', seconds', hmillis', hseconds', hm', hs'⟩ := hreport.replies inMillis inSeconds
    refine ⟨millis', seconds', hmillis', hseconds', ?_, ?_, ?_, ?_⟩
    · rw [Int64.le_iff_toInt_le, hm', hm]
      exact timeLeft_replay_le hlater unwritten le .millis
    · rw [Int64.le_iff_toInt_le, hs', hs]
      exact timeLeft_replay_le hlater unwritten le .seconds
    · rw [eq_neg_two_iff hm', eq_neg_two_iff hm, live?_replay hlater unwritten]
      exact live?_eq_none_iff_of_le le
    · rw [eq_neg_two_iff hs', eq_neg_two_iff hm']

/-- A lease, and another command that cuts it short. -/
def leaseCommands : List Issued :=
  [⟨.frozen ⟨0, 1700000000000⟩, "SET", ["k", "v", "PX", "2600"]⟩,
    ⟨.frozen ⟨5, 1700000000000⟩, "PEXPIRE", ["k", "1600"]⟩]

/-- The lease is reported by what is left of it, and is over in the nanosecond of its deadline. -/
theorem remaining_time_of_lease :
    let s := Keyspace.empty.replay leaseCommands
    let now : Moment := ⟨1000006, 1700000000001⟩
    let later : Moment := ⟨1600000005, 0⟩
    let more : List Issued :=
      [⟨.frozen ⟨1600000004, 0⟩, "GET", ["k"]⟩, ⟨.frozen ⟨1600000004, 0⟩, "INCR", ["l"]⟩]
    (∀ c ∈ leaseCommands, ∀ i, (c.clock i).nanos ≤ now.nanos) ∧ s.Unwritten "k" more ∧
      (s.dispatch (.frozen now) "PTTL" ["k"]).1 = .ok (.integer 1598) ∧
      (s.dispatch (.frozen now) "ttl" ["k"]).1 = .ok (.integer 2) ∧
      ((s.replay more).dispatch (.frozen later) "PTTL" ["k"]).1 = .ok (.integer (-2)) := by
  have hdeadline : (Keyspace.empty.replay leaseCommands).deadline? "k" = some 1600000005 := by cbv
  have hgrant : Keyspace.empty.lastGrant? "k" leaseCommands =
      some (⟨5, 1700000000000⟩, ⟨1600, .millis⟩) := by cbv
  intro s now later more
  have past : ∀ c ∈ leaseCommands, ∀ i, (c.clock i).nanos ≤ now.nanos := by
    simp [leaseCommands, now, Readings.frozen]
  have hlater : ∀ c ∈ more, ∀ i, (c.clock i).nanos ≤ later.nanos := by
    simp [more, later, Readings.frozen]
  have unwritten : s.Unwritten "k" more := by
    have hget : Request.ofCall "GET" ["k"] = .ok (.get "k") := by cbv
    have hincr : Request.ofCall "INCR" ["l"] = .ok (.increase "l" 1) := by cbv
    simp [more, Keyspace.Unwritten, Issued.Leaves, Issued.OnlyCounts, hget, hincr,
      Request.OnlyCounts]
  obtain ⟨millis, seconds, hmillis, hseconds, -, -, -, -, hexact, hmore⟩ :=
    remaining_time_is_exact past (by decide : Command.ofName? "PTTL" = some .pttl)
      (by decide : Command.ofName? "ttl" = some .ttl) "k"
  obtain ⟨asked, span, hlast, -, hm, -, -, -, hs⟩ := hexact 1600000005 hdeadline (by decide)
  rw [hgrant] at hlast
  obtain ⟨rfl, rfl⟩ := Prod.mk.inj (Option.some.inj hlast)
  have hm' : millis = 1598 := Int64.toInt_inj.mp (hm.trans (by decide))
  have hs' : seconds = 2 := Int64.toInt_inj.mp (by rw [hs (by decide), hm']; rfl)
  obtain ⟨millis', -, hmillis', -, -, -, hgone, -⟩ := hmore more later (by decide) unwritten hlater
  have hgone' : millis' = -2 := hgone.mpr (.inr ⟨1600000005, hdeadline, by decide⟩)
  exact ⟨past, unwritten, by rw [hmillis, hm'], by rw [hseconds, hs'], by rw [hmillis', hgone']⟩

/-- The greatest span is granted at the beginning of the calendar. -/
def greatestLease : List Issued :=
  [⟨.frozen ⟨0, 0⟩, "SET", ["k", "v"]⟩,
    ⟨.frozen ⟨0, 0⟩, "PEXPIRE", ["k", "9223372036854775807"]⟩]

/-- A lease, and a request for another one that is refused. -/
def refusedLease : List Issued :=
  [⟨.frozen ⟨0, 0⟩, "SET", ["k", "v", "PX", "100000"]⟩,
    ⟨.frozen ⟨0, 0⟩, "SET", ["k", "v", "PX", "0"]⟩]

/-- The seconds are not always the milliseconds rounded to the nearest, and the milliseconds are not
always within the amount that was asked for last. -/
theorem remaining_time_beyond_requests :
    let clock := Readings.frozen ⟨0, 0⟩
    let greatest := Keyspace.empty.replay greatestLease
    let refused := Keyspace.empty.replay refusedLease
    (greatest.dispatch clock "PTTL" ["k"]).1 = .ok (.integer 9223372036854775807) ∧
      (greatest.dispatch clock "TTL" ["k"]).1 = .ok (.integer 9223372036854775) ∧
      (9223372036854775 : Int) ≠ (9223372036854775807 + 500) / 1000 ∧
      Request.ofCall "SET" ["k", "v", "PX", "0"] = .error (.invalidExpiry "set") ∧
      (refused.dispatch clock "PTTL" ["k"]).1 = .ok (.integer 100000) := by
  refine ⟨by cbv, by cbv, by decide, by cbv, by cbv⟩

end ScriptStore
