import Mathlib
import ScriptStore.Proofs.Keyspace.Calls

/-!
# Lazy expiry refines eager expiry

The keyspace leaves expired entries in place until something looks their keys up. The eager store
below drops every expired entry before each call, and from there on it knows deadlines only as data:
its lookups, removals and counts are those of the map that it holds.

* `Eager.purge`, `Eager.run`, `Eager.issue`, `Eager.after` — the eager store.
* `Shows` — the simulation relation: what a moment shows of one store is all that another holds.
* `Request.run_shows`, `Call.issue_shows` — one request and one call keep to the relation.
* `lazy_expiry_refines_eager_expiry` — **after any calls, the next one has the same reply in both
  stores, and leaves both with the same live entries**.
-/

namespace ScriptStore

open Keyspace

/-! ## The eager store -/

namespace Eager

/-- Drops every entry whose deadline has been reached. -/
def purge (now : Moment) (s : Keyspace) : Keyspace :=
  { s with entries := s.entries.filter fun _ e => !e.expired now }

/-- Erases keys one by one and counts those that were there. -/
def eraseAll (s : Keyspace) : List String → Nat × Keyspace
  | [] => (0, s)
  | key :: keys =>
    let (n, rest) := eraseAll { s with entries := s.entries.erase key } keys
    ((s.entries.contains key).toNat + n, rest)

/-- Replaces the entry of a key by what an effect makes of it. -/
def rewrite (s : Keyspace) (key : String)
    (effect : Option Entry → Except Error Value × Option Entry) : Outcome :=
  let (reply, e) := effect s.entries[key]?
  (reply, { s with entries := s.entries.alter key fun _ => e })

/-- What a request does to a store that holds live entries only. -/
def run (now : Moment) (s : Keyspace) (r : Request) : Outcome :=
  match r with
  | .ping message => (.ok (.text (message.getD "PONG")), s)
  | .get key | .set key _ _ | .increase key _ | .expire key _ | .persist key | .remaining key _
  | .setAdd key _ | .setSize key | .setMembers key | .sortedAdd key _ | .sortedSize key =>
    rewrite s key (r.effect now)
  | .del keys =>
    let (n, s) := eraseAll s keys
    (.ok (.count n), s)
  | .exist keys => (.ok (.count (keys.countP s.entries.contains)), s)
  | .setClientName name => (.ok .ok, { s with clientName := some name })
  | .clientName => (.ok (s.clientName.elim .nil .text), s)
  | .size => (.ok (.count s.entries.size), s)
  | .clear => (.ok .ok, { s with entries := ∅ })

/-- Runs a call after dropping what has expired. -/
def issue (c : Call) (s : Keyspace) : Outcome :=
  match Request.ofCall c.name c.args with
  | .error fault => (.error (.command fault), purge c.now s)
  | .ok request => run c.now (purge c.now s) request

/-- The eager store after calls, from an empty one. -/
def after (calls : List Call) : Keyspace := calls.foldl (fun s c => (issue c s).2) .empty

end Eager

/-! ## The simulation -/

variable {now past : Moment} {s t : Keyspace} {key : String} {r : Request}

/-- What a moment shows of one store is all that another one holds. -/
structure Shows (now : Moment) (s t : Keyspace) : Prop where
  entries : ∀ key, s.live? now key = t.entries[key]?
  clientName : s.clientName = t.clientName

namespace Shows

theorem empty (now : Moment) : Shows now .empty .empty :=
  ⟨fun key => by simp [Keyspace.empty, Keyspace.live?], rfl⟩

/-- What the lazy store sheds makes no difference. -/
theorem sheds {u : Keyspace} (h : Shows now s t) (hs : Sheds now s u) : Shows now u t :=
  ⟨fun key => by rw [hs.live?_eq, h.entries], by rw [hs.clientName, h.clientName]⟩

/-- As time goes on, the eager store drops what the lazy one no longer shows. -/
theorem purge (h : Shows past s t) (le : past.nanos ≤ now.nanos) :
    Shows now s (Eager.purge now t) := by
  refine ⟨fun key => ?_, h.clientName⟩
  rw [Eager.purge, Std.TreeMap.getElem?_filter', ← h.entries key]
  cases hl : s.live? past key with
  | none => rw [live?_eq_none_mono le hl, Option.filter_none]
  | some e => rw [live?, (live?_eq_some_iff.mp hl).1]

theorem contains (h : Shows now s t) (key : String) :
    t.entries.contains key = (s.live? now key).isSome := by
  rw [h.entries, Std.TreeMap.contains_eq_isSome_getElem?]

/-- The lazy store counts as many live keys as the eager one holds. -/
theorem liveCount (h : Shows now s t) : s.liveCount now = t.entries.size := by
  rw [liveCount_eq_size_filter]
  refine Std.TreeMap.Equiv.size_eq (.of_forall_constGet?_eq fun key => ?_)
  rw [Std.TreeMap.getElem?_filter', ← h.entries key, live?]

/-- An effect that the lazy store carries out is the same effect on the map of the eager one. -/
theorem rewrite (h : Shows now s t) {effect : Option Entry → Except Error Value × Option Entry}
    {outcome : Outcome} (ha : Applies now s key (effect (s.live? now key)) outcome) :
    outcome.1 = (Eager.rewrite t key effect).1 ∧
      Shows now outcome.2 (Eager.rewrite t key effect).2 := by
  rw [h.entries key] at ha
  refine ⟨ha.reply, fun other => ?_, ha.clientName.trans h.clientName⟩
  rw [ha.live? other, Eager.rewrite, Std.TreeMap.getElem?_alter]
  simp only [Std.LawfulEqCmp.compare_eq_iff_eq, h.entries]
  simp only [eq_comm]

theorem removeAll (keys : List String) (h : Shows now s t) (i : Nat) :
    (removeAll (.frozen now) s i keys).1 = (Eager.eraseAll t keys).1 ∧
      Shows now (removeAll (.frozen now) s i keys).2 (Eager.eraseAll t keys).2 := by
  induction keys generalizing s t i with
  | nil => exact ⟨rfl, h⟩
  | cons key keys ih =>
    have hstep : Shows now (s.remove now key).2 { t with entries := t.entries.erase key } := by
      refine ⟨fun other => ?_, (clientName_remove s now key).trans h.clientName⟩
      rw [live?_remove, entries_erase, h.entries]
    obtain ⟨hn, hs⟩ := ih hstep (i + 1)
    simp only [Keyspace.removeAll, Eager.eraseAll, Readings.frozen] at hn hs ⊢
    exact ⟨by rw [hn, remove_fst, h.contains], hs⟩

theorem countLive (keys : List String) (h : Shows now s t) (i : Nat) :
    (countLive (.frozen now) s i keys).1 = keys.countP t.entries.contains ∧
      Shows now (countLive (.frozen now) s i keys).2 t := by
  induction keys generalizing s i with
  | nil => exact ⟨rfl, h⟩
  | cons key keys ih =>
    obtain ⟨hn, hs⟩ := ih (h.sheds (sheds_lookup s now key)) (i + 1)
    simp only [Keyspace.countLive, Readings.frozen] at hn hs ⊢
    refine ⟨?_, hs⟩
    rw [hn, lookup_fst, ← h.contains, List.countP_cons]
    cases t.entries.contains key <;> simp [Nat.add_comm]

end Shows

/-- **A request keeps to the relation.** The stores reply alike and go on to show alike. -/
theorem Request.run_shows (wf : r.WellFormed) (h : Shows now s t) :
    (r.run (.frozen now) s).1 = (Eager.run now t r).1 ∧
      Shows now (r.run (.frozen now) s).2 (Eager.run now t r).2 := by
  cases r with
  | ping message => cases message <;> exact ⟨rfl, h⟩
  | del keys =>
    obtain ⟨hn, hs⟩ := h.removeAll keys 0
    exact ⟨by simp only [run, Eager.run, hn], hs⟩
  | exist keys =>
    obtain ⟨hn, hs⟩ := h.countLive keys 0
    exact ⟨by simp only [run, Eager.run, hn], hs⟩
  | setClientName name => exact ⟨rfl, h.entries, rfl⟩
  | clientName => exact ⟨by simp only [run, Eager.run, h.clientName], h⟩
  | size => exact ⟨by simp only [run, Eager.run, Readings.frozen, h.liveCount], h⟩
  | clear => exact ⟨rfl, fun key => by simp [run, Eager.run, live?], h.clientName⟩
  | _ => exact h.rewrite (run_effect wf rfl now s)

/-- **A call keeps to the relation**, if it holds once the eager store has dropped what has
expired. -/
theorem Call.issue_shows {c : Call} (h : Shows c.now s (Eager.purge c.now t)) :
    (c.issue s).1 = (Eager.issue c t).1 ∧ Shows c.now (c.issue s).2 (Eager.issue c t).2 := by
  simp only [issue, Eager.issue, Keyspace.dispatch]
  cases hr : Request.ofCall c.name c.args with
  | error fault => exact ⟨rfl, h⟩
  | ok request => exact Request.run_shows (Request.wellFormed_of_ofCall hr) h

/-- The relation holds whenever a call is about to be issued, from a moment on at which it held. -/
theorem foldl_issue_shows {c : Call} :
    ∀ (calls : List Call) (past : Moment) (s t : Keyspace), Shows past s t →
      (∀ d ∈ calls ++ [c], past.nanos ≤ d.now.nanos) → Timely (calls ++ [c]) →
      Shows c.now (calls.foldl (fun s d => (d.issue s).2) s)
        (Eager.purge c.now (calls.foldl (fun s d => (Eager.issue d s).2) t))
  | [], _, _, _, h, le, _ => h.purge (le c (by simp))
  | d :: calls, past, s, t, h, le, timely => by
    obtain ⟨hd, htimely⟩ := List.pairwise_cons.mp timely
    have hs := (d.issue_shows (h.purge (le d (by simp)))).2
    exact foldl_issue_shows calls d.now _ _ hs hd htimely

/-- **Lazy expiry refines eager expiry.** After any calls in the order of their times, the next call
has the same reply or the same error in both stores. After it, what the lazy store shows is what the
eager one holds, and at no later time does an expired entry count as a key. -/
theorem lazy_expiry_refines_eager_expiry (calls : List Call) (c : Call)
    (timely : Timely (calls ++ [c])) :
    let lazy := c.issue (Keyspace.after calls)
    let eager := Eager.issue c (Eager.after calls)
    lazy.1 = eager.1 ∧
      (∀ key, lazy.2.live? c.now key = eager.2.entries[key]?) ∧
      lazy.2.clientName = eager.2.clientName ∧
      ∀ later : Moment, c.now.nanos ≤ later.nanos →
        (∀ key, lazy.2.live? later key = (Eager.purge later eager.2).entries[key]?) ∧
        lazy.2.liveCount later = (Eager.purge later eager.2).entries.size := by
  have hbefore := foldl_issue_shows calls ⟨0, 0⟩ .empty .empty (.empty _)
    (fun _ _ => Nat.zero_le _) timely
  obtain ⟨hreply, hafter⟩ := Call.issue_shows hbefore
  refine ⟨hreply, hafter.entries, hafter.clientName, fun later le => ?_⟩
  have hlater := hafter.purge le
  exact ⟨hlater.entries, hlater.liveCount⟩

/-- An expired key is still in place when the keys are counted, and does not count. -/
theorem lazy_expiry_refines_eager_expiry_dbsize :
    let calls : List Call :=
      [⟨⟨0, 0⟩, "SET", ["k", "v", "PX", "1"]⟩, ⟨⟨0, 0⟩, "SET", ["l", "w"]⟩]
    let count : Call := ⟨⟨2000000, 2⟩, "dbsize", []⟩
    Timely (calls ++ [count]) ∧ (Keyspace.after calls).entries.size = 2 ∧
      (count.issue (Keyspace.after calls)).1 = .ok (.count 1) := by
  refine ⟨by decide, by cbv, ?_⟩
  rw [(lazy_expiry_refines_eager_expiry _ _ (by decide)).1]
  cbv

end ScriptStore
