import Mathlib
import ScriptStore.Proofs.Keyspace.Calls
import ScriptStore.Proofs.Keyspace.Failure
import ScriptStore.Proofs.Keyspace.View

/-!
# Where a deadline comes from

Three kinds of command say when a key expires: one that sets it, one that gives it a time to live,
and one that takes that away. All others leave the deadline of a live key alone, also those that
write to it, and a key that comes into being by a write of another kind has none.

* `Request.settles?` — what a request says about the deadline of a key.
* `Call.Settles`, `Call.Ends`, `Call.Grows` — a call that succeeds and says when the key expires, a
  call that takes the key away, and one that may bring it about without a word on its deadline.
* `Origin` — the history of a live key's deadline, from the call on that created the key.
* `Call.deadline_issue`, `exists_origin` — what one call makes of the deadline of a key, and what a
  run makes of it.
* `Spared.livesUntil` — in a run of calls that spare it, a key lives exactly until its deadline.
* `deadline_of_live_key` — **the deadline of a live key is the one that the last successful call
  settled since the key was created**; no other call changes it, and the key lives until then.
-/

namespace ScriptStore

open Keyspace

variable {now later : Moment} {s : Keyspace} {key : String} {r : Request} {found : Option Entry}
  {e e' : Entry} {c : Call} {before calls more : List Call} {deadline : Option Nat}

/-! ## Requests -/

/-- The nanosecond at which a span ends that begins at a moment. -/
def Span.endsAt (span : Span) (now : Moment) : Nat :=
  now.nanos + span.inMillis.toNat * 1000000

theorem Span.eq_endsAt_of_deadline? {span : Span} {d : Nat} (h : span.deadline? now = some d) :
    d = span.endsAt now := by
  unfold Span.deadline? at h
  split at h
  · cases h; rfl
  · cases h

namespace Request

/-- What a request says about the deadline of a key, if it says anything: `some none` is that there
is to be none. -/
def settles? (now : Moment) (key : String) : Request → Option (Option Nat)
  | .set key' _ expiry => if key' = key then some (expiry.map fun span => span.endsAt now) else none
  | .expire key' span =>
    if key' = key ∧ 0 < span.amount then some (some (span.endsAt now)) else none
  | .persist key' => if key' = key then some none else none
  | _ => none

/-- A request that takes a key away. -/
def Ends (key : String) : Request → Prop
  | .del keys => key ∈ keys
  | .expire key' span => key' = key ∧ span.amount ≤ 0
  | .clear => True
  | _ => False

/-- A request that adds to a key, which it brings about if need be. -/
def Grows (key : String) : Request → Prop
  | .increase key' _ | .setAdd key' _ | .sortedAdd key' _ => key' = key
  | _ => False

/-- A request that binds a key to data that was not there. -/
def Writes (key : String) : Request → Prop
  | .set key' _ _ | .increase key' _ | .setAdd key' _ | .sortedAdd key' _ => key' = key
  | _ => False

/-- A request that writes to a key says when it expires, or grows it. -/
theorem Writes.settles?_or_grows (h : r.Writes key) (now : Moment) :
    (r.settles? now key).isSome = true ∨ r.Grows key := by
  cases r with
  | set key' value expiry =>
    have hkey : key' = key := h
    exact .inl (by simp [settles?, hkey])
  | increase | setAdd | sortedAdd => exact .inr h
  | _ => exact h.elim

/-- A request that gives a time to live gives the one that its span says. -/
theorem deadline_effect_expire {span : Span} (h : ((expire key span).effect now found).2 = some e) :
    e.deadline =
      if ((expire key span).effect now found).1.isOk then
        ((expire key span).settles? now key).getD (found.bind Entry.deadline)
      else found.bind Entry.deadline := by
  simp only [effect, settles?, true_and] at h ⊢
  by_cases hpos : span.amount ≤ 0
  · rw [if_pos hpos] at h
    cases h
  · rw [if_neg hpos] at h
    have hlt : 0 < span.amount := Int64.not_le.mp hpos
    cases hd : span.deadline? now with
    | none =>
      rw [hd] at h
      have hfound : found = some e := h
      simp [hpos, hfound, Except.isOk, Except.toBool]
    | some d =>
      rw [hd] at h
      have hend := Span.eq_endsAt_of_deadline? hd
      obtain ⟨e0, rfl, rfl⟩ := Option.map_eq_some_iff.mp h
      simp [hpos, hlt, hend, Except.isOk, Except.toBool]

/-- A request that binds a key to a string gives the deadline that its options say. -/
theorem deadline_effect_set {value : String} {expiry : Option Span}
    (h : ((set key value expiry).effect now found).2 = some e) :
    e.deadline =
      if ((set key value expiry).effect now found).1.isOk then
        ((set key value expiry).settles? now key).getD (found.bind Entry.deadline)
      else found.bind Entry.deadline := by
  cases expiry with
  | none =>
    cases h
    simp [effect, settles?, Except.isOk, Except.toBool, Entry.lasting]
  | some span =>
    simp only [effect, settles?, Option.map_some] at h ⊢
    cases hd : span.deadline? now with
    | none =>
      rw [hd] at h
      have hfound : found = some e := h
      simp [hfound, Except.isOk, Except.toBool]
    | some d =>
      rw [hd] at h
      have hend := Span.eq_endsAt_of_deadline? hd
      cases h
      simp [hend, Except.isOk, Except.toBool]

/-- An addition leaves the deadline, and a key that it brings about has none. -/
theorem deadline_effect_addition (a : Addition) (h : (a.effect found).2 = some e) :
    e.deadline = found.bind Entry.deadline := by
  simp only [Addition.effect] at h
  cases hadd : a.add (found.getD (.lasting a.fresh)).data with
  | none =>
    rw [hadd] at h
    have hfound : found = some e := h
    rw [hfound]
    rfl
  | some grown =>
    rw [hadd] at h
    cases h
    cases found with
    | none => rfl
    | some e0 => rfl

/-- An increment leaves the deadline, and a counter that it brings about has none. -/
theorem deadline_effect_increase {delta : Int64}
    (h : ((increase key delta).effect now found).2 = some e) :
    e.deadline = found.bind Entry.deadline := by
  simp only [effect] at h
  split at h
  · have hfound : found = some e := h
    rw [hfound]
    rfl
  · split at h
    · have hfound : found = some e := h
      rw [hfound]
      rfl
    · cases h
      rfl

/-- **The deadline of an entry that an effect leaves**: the one that the request settles if it
succeeds, or else the one from before. -/
theorem deadline_effect (about : r.key? = some key) (h : (r.effect now found).2 = some e) :
    e.deadline =
      if (r.effect now found).1.isOk then (r.settles? now key).getD (found.bind Entry.deadline)
      else found.bind Entry.deadline := by
  cases r with
  | set key' value expiry => cases about; exact deadline_effect_set h
  | expire key' span => cases about; exact deadline_effect_expire h
  | persist key' =>
    cases about
    obtain ⟨e0, rfl, rfl⟩ := Option.map_eq_some_iff.mp h
    simp [effect, settles?, Except.isOk, Except.toBool, Entry.lasting]
  | increase key' delta =>
    have hsame := deadline_effect_increase h
    simpa [settles?] using hsame
  | setAdd key' members =>
    rw [effect_setAdd] at h ⊢
    have hsame := deadline_effect_addition _ h
    simpa [settles?] using hsame
  | sortedAdd key' pairs =>
    rw [effect_sortedAdd] at h ⊢
    have hsame := deadline_effect_addition _ h
    simpa [settles?] using hsame
  | get | remaining | setSize | setMembers | sortedSize | exist =>
    have hfound : found = some e := h
    simp [settles?, hfound]
  | del keys => cases h
  | _ => cases about

/-- A request that is not about a key alone says nothing about its deadline. -/
theorem settles?_of_key?_ne (h : r.key? ≠ some key) : r.settles? now key = none := by
  cases r with
  | set key' value expiry | persist key' => simpa [key?, settles?] using h
  | expire key' span =>
    have hne : key' ≠ key := fun heq => h (congrArg some heq)
    simp [settles?, hne]
  | _ => rfl

/-- What an effect leaves of an entry is an entry, unless the request takes the key away. -/
theorem isSome_effect_of_not_ends (about : r.key? = some key) (h : ¬ r.Ends key) :
    (r.effect now (some e)).2.isSome = true := by
  cases r with
  | set key' value expiry =>
    cases expiry with
    | none => rfl
    | some span =>
      simp only [effect]
      split <;> rfl
  | expire key' span =>
    cases about
    have hpos : ¬ span.amount ≤ 0 := fun hle => h ⟨rfl, hle⟩
    simp only [effect, if_neg hpos]
    split <;> rfl
  | increase key' delta =>
    simp only [effect]
    split
    · rfl
    · split <;> rfl
  | setAdd key' members =>
    rw [effect_setAdd, Addition.effect]
    split <;> rfl
  | sortedAdd key' pairs =>
    rw [effect_sortedAdd, Addition.effect]
    split <;> rfl
  | del keys =>
    -- the key of a removal is one of those that it removes
    obtain rfl := eq_singleton_of_key?_del about
    exact (h (List.mem_singleton.mpr rfl)).elim
  | get | remaining | setSize | setMembers | sortedSize | exist | persist => rfl
  | _ => cases about

/-- A request whose effect brings a key about writes to it. -/
theorem writes_of_effect (about : r.key? = some key) (h : (r.effect now none).2 = some e) :
    r.Writes key := by
  cases r with
  | set | increase | setAdd | sortedAdd => cases about; rfl
  | expire key' span =>
    simp only [effect] at h
    split at h
    · cases h
    · split at h <;> cases h
  | del | get | remaining | setSize | setMembers | sortedSize | exist | persist => cases h
  | _ => cases about

/-- A request that takes a key away leaves nothing under it. -/
theorem view_of_ends (h : r.Ends key) : r.view now key found = none := by
  cases r with
  | del keys => exact if_pos h
  | expire key' span =>
    obtain ⟨rfl, hpos⟩ := h
    simp [view, key?, effect, hpos]
  | clear => rfl
  | _ => exact h.elim

/-- A request about other keys that does not take a key away leaves it alone. -/
theorem view_of_key?_ne (h : r.key? ≠ some key) (hends : ¬ r.Ends key) :
    r.view now key found = found := by
  cases r with
  | del keys => exact if_neg hends
  | clear => exact (hends trivial).elim
  | ping | exist | setClientName | clientName | size => rfl
  | _ => exact if_neg h

/-- A request about a key leaves what its effect says. -/
theorem view_of_key? (h : r.key? = some key) : r.view now key found = (r.effect now found).2 := by
  cases r with
  | del keys =>
    obtain rfl := eq_singleton_of_key?_del h
    simp [view, effect]
  | exist keys => rfl
  | ping | clear | setClientName | clientName | size => cases h
  | _ => exact if_pos h

section Run

variable (wf : r.WellFormed)
include wf

/-- **The deadline that a request leaves**: the one that it settles if it succeeds, or else the one
from before. -/
theorem deadline_run (h : (r.run (.frozen now) s).2.live? now key = some e) :
    e.deadline =
      if (r.run (.frozen now) s).1.isOk then
        (r.settles? now key).getD ((s.live? now key).bind Entry.deadline)
      else (s.live? now key).bind Entry.deadline := by
  rw [live?_run wf] at h
  by_cases hends : r.Ends key
  · rw [view_of_ends hends] at h
    cases h
  by_cases about : r.key? = some key
  · rw [view_of_key? about] at h
    rw [reply_run wf about]
    exact deadline_effect about h
  · rw [view_of_key?_ne about hends] at h
    simp [settles?_of_key?_ne about, h]

/-- A live key stays, unless the request takes it away. -/
theorem exists_live?_run_of_not_ends (h : s.live? now key = some e) (hends : ¬ r.Ends key) :
    ∃ e', (r.run (.frozen now) s).2.live? now key = some e' := by
  rw [live?_run wf, h]
  by_cases about : r.key? = some key
  · rw [view_of_key? about]
    exact Option.isSome_iff_exists.mp (isSome_effect_of_not_ends about hends)
  · exact ⟨e, view_of_key?_ne about hends⟩

/-- A request that brings a key about writes to it. -/
theorem writes_of_live?_run (hnone : s.live? now key = none)
    (h : (r.run (.frozen now) s).2.live? now key = some e) : r.Writes key := by
  rw [live?_run wf, hnone] at h
  by_cases hends : r.Ends key
  · rw [view_of_ends hends] at h
    cases h
  by_cases about : r.key? = some key
  · rw [view_of_key? about] at h
    exact writes_of_effect about h
  · rw [view_of_key?_ne about hends] at h
    cases h

end Run

end Request

/-! ## Calls -/

namespace Call

/-- What a call says about the deadline of a key. -/
def settles? (c : Call) (key : String) : Option (Option Nat) :=
  match Request.ofCall c.name c.args with
  | .ok r => r.settles? c.now key
  | .error _ => none

/-- A call settles the deadline of a key: it succeeds, and says what the deadline is. -/
def Settles (c : Call) (s : Keyspace) (key : String) (deadline : Option Nat) : Prop :=
  (c.issue s).1.isOk = true ∧ c.settles? key = some deadline

/-- A call takes a key away: it removes it, gives it no time to live, or removes all keys. -/
def Ends (c : Call) (key : String) : Prop :=
  ∃ r, Request.ofCall c.name c.args = .ok r ∧ r.Ends key

/-- A call adds to a key, which it brings about if need be. -/
def Grows (c : Call) (key : String) : Prop :=
  ∃ r, Request.ofCall c.name c.args = .ok r ∧ r.Grows key

/-- A call that binds a key to data that was not there. -/
def Writes (c : Call) (key : String) : Prop :=
  ∃ r, Request.ofCall c.name c.args = .ok r ∧ r.Writes key

/-- **What one call makes of the deadline of a key**: it settles it, or leaves it as it was. -/
theorem deadline_issue (h : (c.issue s).2.live? c.now key = some e) :
    c.Settles s key e.deadline ∨
      (∀ d, ¬ c.Settles s key d) ∧ e.deadline = (s.live? c.now key).bind Entry.deadline := by
  cases hr : Request.ofCall c.name c.args with
  | error fault =>
    have hissue := issue_of_error hr s
    rw [hissue] at h
    refine .inr ⟨fun d hd => ?_, (by rw [h]; rfl)⟩
    rw [Settles, hissue] at hd
    exact Bool.false_ne_true hd.1
  | ok r =>
    have hissue := issue_of_ok hr s
    have hsettles : c.settles? key = r.settles? c.now key := by rw [settles?, hr]
    rw [hissue] at h
    have hrun := Request.deadline_run (Request.wellFormed_of_ofCall hr) h
    simp only [Settles, hissue, hsettles]
    cases hok : (r.run (.frozen c.now) s).1.isOk with
    | false =>
      rw [hok, if_neg Bool.false_ne_true] at hrun
      exact .inr ⟨fun d hd => Bool.false_ne_true hd.1, hrun⟩
    | true =>
      rw [hok, if_pos rfl] at hrun
      cases hd : r.settles? c.now key with
      | none =>
        rw [hd] at hrun
        refine .inr ⟨fun d h => ?_, hrun⟩
        cases h.2
      | some d =>
        rw [hd] at hrun
        exact .inl ⟨rfl, congrArg some hrun.symm⟩

/-- A live key stays, unless the call takes it away. -/
theorem exists_live?_issue (h : s.live? c.now key = some e) (hends : ¬ c.Ends key) :
    ∃ e', (c.issue s).2.live? c.now key = some e' := by
  cases hr : Request.ofCall c.name c.args with
  | error fault =>
    rw [issue_of_error hr]
    exact ⟨e, h⟩
  | ok r =>
    rw [issue_of_ok hr]
    have hnot : ¬ r.Ends key := fun hr' => hends ⟨r, hr, hr'⟩
    exact Request.exists_live?_run_of_not_ends (Request.wellFormed_of_ofCall hr) h hnot

/-- A key that is not there stays so, unless the call writes to it. -/
theorem live?_issue_eq_none (hnone : s.live? c.now key = none) (hwrites : ¬ c.Writes key) :
    (c.issue s).2.live? c.now key = none := by
  cases hr : Request.ofCall c.name c.args with
  | error fault =>
    rw [issue_of_error hr]
    exact hnone
  | ok r =>
    rw [issue_of_ok hr]
    refine Option.eq_none_iff_forall_ne_some.mpr fun e he => hwrites ⟨r, hr, ?_⟩
    exact Request.writes_of_live?_run (Request.wellFormed_of_ofCall hr) hnone he

/-- A call that brings a key about either settles its deadline, or grows the key. -/
theorem settles_or_grows (hnone : s.live? c.now key = none)
    (h : (c.issue s).2.live? c.now key = some e) :
    c.Settles s key e.deadline ∨
      (∀ d, ¬ c.Settles s key d) ∧ c.Grows key ∧ e.deadline = none := by
  rcases deadline_issue h with hsettles | ⟨hnot, hdeadline⟩
  · exact .inl hsettles
  rw [hnone] at hdeadline
  refine .inr ⟨hnot, ?_, hdeadline⟩
  cases hr : Request.ofCall c.name c.args with
  | error fault =>
    rw [issue_of_error hr, hnone] at h
    cases h
  | ok r =>
    have wf := Request.wellFormed_of_ofCall hr
    have hissue := issue_of_ok hr s
    rw [hissue] at h
    rcases (Request.writes_of_live?_run wf hnone h).settles?_or_grows c.now with hsome | hgrows
    · -- a call that says what the deadline is and brings the key about has not failed
      obtain ⟨d, hd⟩ := Option.isSome_iff_exists.mp hsome
      refine (hnot d ⟨?_, by rw [settles?, hr]; exact hd⟩).elim
      rw [hissue]
      cases hreply : (r.run (.frozen c.now) s).1 with
      | ok v => rfl
      | error fault =>
        have hsheds : Sheds c.now s (r.run (.frozen c.now) s).2 :=
          Request.sheds_of_run_eq_error (fun _ => Nat.le_refl _) hreply
        rw [hsheds.live?_eq key, hnone] at h
        cases h
    · exact ⟨r, hr, hgrows⟩

end Call

/-! ## Runs -/

theorem Keyspace.after_snoc (calls : List Call) (c : Call) :
    Keyspace.after (calls ++ [c]) = (c.issue (Keyspace.after calls)).2 :=
  List.foldl_append

/-- An entry that a moment shows was there at every earlier one. -/
theorem Keyspace.live?_of_le (le : now.nanos ≤ later.nanos) (h : s.live? later key = some e) :
    s.live? now key = some e := by
  obtain ⟨hentry, hlive⟩ := live?_eq_some_iff.mp h
  refine live?_eq_some_iff.mpr ⟨hentry, Bool.eq_false_iff.mpr fun hexpired => ?_⟩
  rw [Entry.expired_mono le hexpired] at hlive
  cases hlive

/-- None of these calls settles the deadline of a key. -/
def Unsettled (key : String) (before calls : List Call) : Prop :=
  ∀ first c rest, calls = first ++ c :: rest →
    ∀ d, ¬ c.Settles (Keyspace.after (before ++ first)) key d

/-- The last of these calls that settles the deadline of a key. -/
def LastSettled (key : String) (before calls : List Call) (deadline : Option Nat) : Prop :=
  ∃ first c rest, calls = first ++ c :: rest ∧
    c.Settles (Keyspace.after (before ++ first)) key deadline ∧
    Unsettled key (before ++ first ++ [c]) rest

/-- Where the deadline of a live key comes from. Some call has created the key, which was not there
before and has been live ever since; from that call on, the last successful one that says what the
deadline is has settled it. If there is none, the key was brought about by an addition and has no
deadline. -/
structure Origin (key : String) (before : List Call) (creating : Call) (since : List Call)
    (deadline : Option Nat) : Prop where
  created : (Keyspace.after before).live? creating.now key = none
  live : ∀ first c rest, since = first ++ c :: rest →
    ((Keyspace.after (before ++ creating :: first)).live? c.now key).isSome = true
  settled : LastSettled key before (creating :: since) deadline ∨
    Unsettled key before (creating :: since) ∧ creating.Grows key ∧ deadline = none

/-- A split of calls with one more behind them is at the new one or before it. -/
theorem split_snoc {first rest : List Call} {c d : Call}
    (h : calls ++ [c] = first ++ d :: rest) :
    (first = calls ∧ d = c) ∨ ∃ rest', calls = first ++ d :: rest' := by
  rcases List.eq_nil_or_concat rest with rfl | ⟨rest', last, rfl⟩
  · obtain ⟨rfl, hd⟩ := List.append_inj' h rfl
    exact .inl ⟨rfl, (List.head_eq_of_cons_eq hd).symm⟩
  · have hsnoc : calls ++ [c] = (first ++ d :: rest') ++ [last] := by simpa using h
    exact .inr ⟨rest', (List.append_inj' hsnoc rfl).1⟩

theorem Unsettled.nil : Unsettled key before [] := by
  intro first c rest hsplit
  cases first <;> cases hsplit

theorem Unsettled.snoc (h : Unsettled key before calls)
    (hc : ∀ d, ¬ c.Settles (Keyspace.after (before ++ calls)) key d) :
    Unsettled key before (calls ++ [c]) := by
  intro first c' rest hsplit
  rcases split_snoc hsplit with ⟨rfl, rfl⟩ | ⟨rest', hcalls⟩
  · exact hc
  · exact h first c' rest' hcalls

theorem LastSettled.snoc (h : LastSettled key before calls deadline)
    (hc : ∀ d, ¬ c.Settles (Keyspace.after (before ++ calls)) key d) :
    LastSettled key before (calls ++ [c]) deadline := by
  obtain ⟨first, c', rest, rfl, hsettles, hrest⟩ := h
  refine ⟨first, c', rest ++ [c], by simp, hsettles, hrest.snoc ?_⟩
  simpa using hc

/-- A call that settles the deadline is the last one to do so. -/
theorem LastSettled.of_settles (h : c.Settles (Keyspace.after (before ++ calls)) key deadline) :
    LastSettled key before (calls ++ [c]) deadline :=
  ⟨calls, c, [], rfl, h, .nil⟩

/-- A call that creates a key is where the deadline comes from. -/
theorem Origin.of_created (hnone : (Keyspace.after calls).live? c.now key = none)
    (h : (Keyspace.after (calls ++ [c])).live? c.now key = some e) :
    Origin key calls c [] e.deadline := by
  rw [after_snoc] at h
  have hlive : ∀ first c' rest, [] = first ++ c' :: rest →
      ((Keyspace.after (calls ++ c :: first)).live? c'.now key).isSome = true := by
    intro first c' rest hsplit
    cases first <;> cases hsplit
  refine ⟨hnone, hlive, ?_⟩
  rcases Call.settles_or_grows hnone h with hsettles | ⟨hnot, hgrows, hdeadline⟩
  · have hlast : LastSettled key calls ([] ++ [c]) e.deadline :=
      .of_settles (by simpa using hsettles)
    exact .inl hlast
  · refine .inr ⟨?_, hgrows, hdeadline⟩
    have hnil : Unsettled key calls [] := .nil
    exact hnil.snoc (by simpa using hnot)

/-- A call after which a live key is still live adds to the history of its deadline. -/
theorem Origin.snoc {creating : Call} {since : List Call} {e0 : Entry}
    (h : Origin key before creating since e0.deadline)
    (hbefore : (Keyspace.after (before ++ creating :: since)).live? c.now key = some e0)
    (hafter : (Keyspace.after (before ++ creating :: since ++ [c])).live? c.now key = some e) :
    Origin key before creating (since ++ [c]) e.deadline := by
  rw [after_snoc] at hafter
  refine ⟨h.created, fun first c' rest hsplit => ?_, ?_⟩
  · rcases split_snoc hsplit with ⟨rfl, rfl⟩ | ⟨rest', hsince⟩
    · rw [hbefore]
      rfl
    · exact h.live first c' rest' hsince
  · rcases Call.deadline_issue hafter with hsettles | ⟨hnot, hsame⟩
    · have hlast : LastSettled key before (creating :: since ++ [c]) e.deadline :=
        .of_settles hsettles
      exact .inl hlast
    · rw [hbefore] at hsame
      rcases h.settled with hlast | ⟨hnone, hgrows, hdeadline⟩
      · rw [hsame]
        exact .inl (hlast.snoc hnot)
      · refine .inr ⟨hnone.snoc hnot, hgrows, ?_⟩
        rw [hsame]
        exact hdeadline

/-- The deadline of a key that is live after a run comes from the run. -/
theorem exists_origin (calls : List Call) :
    ∀ (now : Moment) (e : Entry), Timely calls → (∀ c ∈ calls, c.now.nanos ≤ now.nanos) →
      (Keyspace.after calls).live? now key = some e →
      ∃ before creating since, calls = before ++ creating :: since ∧
        Origin key before creating since e.deadline := by
  induction calls using List.reverseRecOn with
  | nil =>
    intro now e _ _ h
    simp [Keyspace.after, Keyspace.empty, live?] at h
  | append_singleton calls c ih =>
    intro now e timely past h
    have hpast : c.now.nanos ≤ now.nanos := past c (by simp)
    have hafter := live?_of_le hpast h
    obtain ⟨htimely, -, hcross⟩ := List.pairwise_append.mp timely
    cases hbefore : (Keyspace.after calls).live? c.now key with
    | none => exact ⟨calls, c, [], rfl, .of_created hbefore hafter⟩
    | some e0 =>
      have hearlier : ∀ d ∈ calls, d.now.nanos ≤ c.now.nanos := fun d hd =>
        hcross d hd c (List.mem_singleton.mpr rfl)
      obtain ⟨before, creating, since, rfl, horigin⟩ := ih c.now e0 htimely hearlier hbefore
      exact ⟨before, creating, since ++ [c], by simp, horigin.snoc hbefore hafter⟩

/-! ## What becomes of a deadline -/

/-- Calls that leave a key to its deadline: until then none of them takes it away or says anew when
it expires, and from then on none of them writes to it. -/
structure Spared (key : String) (deadline : Option Nat) (before calls : List Call) : Prop where
  kept : ∀ first c rest, calls = first ++ c :: rest → (∀ d ∈ deadline, c.now.nanos < d) →
    ¬ c.Ends key ∧ ∀ d, ¬ c.Settles (Keyspace.after (before ++ first)) key d
  unwritten : ∀ c ∈ calls, ∀ d ∈ deadline, d ≤ c.now.nanos → ¬ c.Writes key

theorem Spared.nil : Spared key deadline before [] :=
  ⟨fun first c rest hsplit => (by cases first <;> cases hsplit), fun c hc => (by cases hc)⟩

/-- A keyspace shows a key with a deadline until that has been reached, and then no more. -/
def LivesUntil (s : Keyspace) (now : Moment) (key : String) (deadline : Option Nat) : Prop :=
  ((∀ d ∈ deadline, now.nanos < d) → ∃ e, s.live? now key = some e ∧ e.deadline = deadline) ∧
    ∀ d ∈ deadline, d ≤ now.nanos → s.live? now key = none

/-- Time alone takes a key to its deadline. -/
theorem LivesUntil.mono (le : now.nanos ≤ later.nanos) (h : LivesUntil s now key deadline) :
    LivesUntil s later key deadline := by
  by_cases hreached : ∃ d ∈ deadline, d ≤ now.nanos
  · obtain ⟨d, hd, hpast⟩ := hreached
    refine ⟨fun hahead => ?_, fun _ _ _ => live?_eq_none_mono le (h.2 d hd hpast)⟩
    have := hahead d hd
    omega
  · have hahead : ∀ d ∈ deadline, now.nanos < d := fun d hd =>
      Nat.lt_of_not_le fun hle => hreached ⟨d, hd, hle⟩
    obtain ⟨e, he, rfl⟩ := h.1 hahead
    have hentry := (live?_eq_some_iff.mp he).1
    refine ⟨fun hlater => ⟨e, live?_eq_some_iff.mpr ⟨hentry, ?_⟩, rfl⟩, fun d hd hpast => ?_⟩
    · cases hd : e.deadline with
      | none => simp [Entry.expired, hd]
      | some d =>
        have := hlater d hd
        simp [Entry.expired, hd, this]
    · rw [live?, hentry]
      have hdeadline : e.deadline = some d := hd
      simp [Entry.expired, hdeadline, hpast]

theorem LivesUntil.of_live? (h : s.live? now key = some e) :
    LivesUntil s now key e.deadline := by
  refine ⟨fun _ => ⟨e, h, rfl⟩, fun d hd hpast => ?_⟩
  have hdeadline : e.deadline = some d := hd
  have hlive := expired_of_live? h
  simp [Entry.expired, hdeadline, hpast] at hlive

/-- **In a run of calls that spare it, a key lives until its deadline and no longer.** -/
theorem Spared.livesUntil (h : LivesUntil (Keyspace.after before) now key deadline) :
    ∀ (more : List Call) (later : Moment), Timely more →
      (∀ c ∈ more, now.nanos ≤ c.now.nanos ∧ c.now.nanos ≤ later.nanos) →
      now.nanos ≤ later.nanos → Spared key deadline before more →
      LivesUntil (Keyspace.after (before ++ more)) later key deadline := by
  intro more
  induction more using List.reverseRecOn with
  | nil =>
    intro later _ _ le _
    rw [List.append_nil]
    exact h.mono le
  | append_singleton more c ih =>
    intro later timely between _ spared
    obtain ⟨htimely, -, hcross⟩ := List.pairwise_append.mp timely
    obtain ⟨hfrom, hto⟩ := between c (by simp)
    have hearlier : ∀ d ∈ more, now.nanos ≤ d.now.nanos ∧ d.now.nanos ≤ c.now.nanos :=
      fun d hd => ⟨(between d (by simp [hd])).1, hcross d hd c (List.mem_singleton.mpr rfl)⟩
    have hspared : Spared key deadline before more :=
      ⟨fun first c' rest hsplit => spared.kept first c' (rest ++ [c]) (by simp [hsplit]),
        fun c' hc' => spared.unwritten c' (by simp [hc'])⟩
    have hbefore := ih c.now htimely hearlier hfrom hspared
    -- the call itself: before the deadline it finds the key and leaves it, from then on it finds
    -- no key and brings none about
    refine LivesUntil.mono hto ?_
    rw [← List.append_assoc, after_snoc]
    refine ⟨fun hahead => ?_, fun d hd hpast => ?_⟩
    · obtain ⟨e, he, hdeadline⟩ := hbefore.1 hahead
      obtain ⟨hends, hsettles⟩ := spared.kept more c [] rfl hahead
      obtain ⟨e', he'⟩ := Call.exists_live?_issue he hends
      refine ⟨e', he', ?_⟩
      rcases Call.deadline_issue he' with hsettled | ⟨-, hsame⟩
      · exact (hsettles _ hsettled).elim
      · rw [hsame, he]
        exact hdeadline
    · exact Call.live?_issue_eq_none (hbefore.2 d hd hpast)
        (spared.unwritten c (by simp) d hd hpast)

/-- **The deadline of a live key comes from the last call that settled it.** Some call has created
the key; of the successful calls from that one on, the last one that says when the key expires has
said so, and without one the key has no deadline. A further call settles the deadline or leaves it
as it is, unless it takes the key away. In a run of calls that spare it, the key lives until its
deadline and no longer. -/
theorem deadline_of_live_key (timely : Timely calls) (past : ∀ c ∈ calls, c.now.nanos ≤ now.nanos)
    (live : (Keyspace.after calls).live? now key = some e) :
    (∃ before creating since, calls = before ++ creating :: since ∧
      Origin key before creating since e.deadline) ∧
    (∀ c : Call, c.now = now → ¬ c.Ends key →
      ∃ e', (c.issue (Keyspace.after calls)).2.live? now key = some e' ∧
        (c.Settles (Keyspace.after calls) key e'.deadline ∨
          (∀ d, ¬ c.Settles (Keyspace.after calls) key d) ∧ e'.deadline = e.deadline)) ∧
    ∀ (more : List Call) (later : Moment), Timely more →
      (∀ c ∈ more, now.nanos ≤ c.now.nanos ∧ c.now.nanos ≤ later.nanos) →
      now.nanos ≤ later.nanos → Spared key e.deadline calls more →
      LivesUntil (Keyspace.after (calls ++ more)) later key e.deadline := by
  refine ⟨exists_origin calls now e timely past live, ?_, Spared.livesUntil (.of_live? live)⟩
  rintro c rfl hends
  obtain ⟨e', he'⟩ := Call.exists_live?_issue live hends
  refine ⟨e', he', ?_⟩
  have hdeadline := Call.deadline_issue he'
  rwa [live] at hdeadline

/-- A counter that is given a time to live keeps it when it is incremented again. -/
theorem deadline_of_live_counter :
    let calls : List Call :=
      [⟨⟨0, 0⟩, "INCR", ["n"]⟩, ⟨⟨1000000, 1⟩, "PEXPIRE", ["n", "5"]⟩,
        ⟨⟨2000000, 2⟩, "INCR", ["n"]⟩]
    Timely calls ∧ (∀ c ∈ calls, c.now.nanos ≤ 3000000) ∧
      (Keyspace.after calls).live? ⟨3000000, 3⟩ "n" = some ⟨.string "2", some 6000000⟩ ∧
      (Keyspace.after calls).live? ⟨6000000, 6⟩ "n" = none := by
  intro calls
  have timely : Timely calls := by decide
  have past : ∀ c ∈ calls, c.now.nanos ≤ 3000000 := by decide
  have live : (Keyspace.after calls).live? ⟨3000000, 3⟩ "n" =
      some ⟨.string "2", some 6000000⟩ := by cbv
  obtain ⟨-, -, hlives⟩ := deadline_of_live_key timely past live
  have hend := hlives [] ⟨6000000, 6⟩ .nil (by decide) (by decide) .nil
  rw [List.append_nil] at hend
  exact ⟨timely, past, live, hend.2 6000000 rfl (Nat.le_refl _)⟩

end ScriptStore
