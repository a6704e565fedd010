import ScriptStore.Proofs.Keyspace.Effect

/-!
# A key seen through every request

`Request.run_effect` is about the one key of a request. This module says what any request leaves
under any key: what the request makes of the entry that was there, and of nothing else.

* `Request.view` — the entry that a request leaves under a key.
* `Request.live?_run` — **what a moment shows of a key after a request is a function of what it
  showed before**.
-/

namespace ScriptStore

open Keyspace

variable {now : Moment} {s : Keyspace} {key : String} {r : Request}

/-- The entry that a request leaves under a key, from the entry that was live there. -/
def Request.view (now : Moment) (key : String) (r : Request) (found : Option Entry) :
    Option Entry :=
  match r with
  | .del keys => if key ∈ keys then none else found
  | .clear => none
  | .ping _ | .exist _ | .setClientName _ | .clientName | .size => found
  | r => if r.key? = some key then (r.effect now found).2 else found

/-- Removing keys leaves none of them, and all others as they were. -/
theorem Keyspace.live?_removeAll (keys : List String) (s : Keyspace) (i : Nat) (key : String) :
    (removeAll (.frozen now) s i keys).2.live? now key =
      if key ∈ keys then none else s.live? now key := by
  induction keys generalizing s i with
  | nil => simp [removeAll]
  | cons first keys ih =>
    have hrest := ih (s.remove now first).2 (i + 1)
    simp only [removeAll, Readings.frozen] at hrest ⊢
    rw [hrest, live?_remove]
    by_cases hfirst : key = first
    · simp [hfirst]
    · simp [hfirst]

theorem Keyspace.live?_countLive (keys : List String) (s : Keyspace) (i : Nat) (key : String) :
    (countLive (.frozen now) s i keys).2.live? now key = s.live? now key := by
  induction keys generalizing s i with
  | nil => rfl
  | cons first keys ih =>
    have hrest := ih (s.lookup now first).2 (i + 1)
    simp only [countLive, Readings.frozen] at hrest ⊢
    rw [hrest]
    exact live?_lookup (Nat.le_refl _) first key

/-- A request about one key shows what its effect says under its key, and what was there under any
other. -/
theorem Request.live?_run_of_key? {about : String} (wf : r.WellFormed) (h : r.key? = some about)
    (key : String) : (r.run (.frozen now) s).2.live? now key =
      if r.key? = some key then (r.effect now (s.live? now key)).2 else s.live? now key := by
  have happlies := run_effect wf h now s
  rw [happlies.live? key, h]
  by_cases hkey : key = about
  · subst hkey
    rw [if_pos rfl, if_pos rfl]
  · have hne : ¬ some about = some key := fun heq => hkey (Option.some.inj heq).symm
    rw [if_neg hkey, if_neg hne]

/-- **What a moment shows of a key after a request is a function of what it showed before.** -/
theorem Request.live?_run (wf : r.WellFormed) (now : Moment) (s : Keyspace) (key : String) :
    (r.run (.frozen now) s).2.live? now key = r.view now key (s.live? now key) := by
  cases r with
  | ping message => cases message <;> rfl
  | del keys => exact live?_removeAll keys s 0 key
  | exist keys => exact live?_countLive keys s 0 key
  | setClientName | clientName | size => rfl
  | clear => simp [run, view, live?]
  | _ => exact live?_run_of_key? wf rfl key

/-- The reply of a request about one key is the one of its effect. -/
theorem Request.reply_run (wf : r.WellFormed) (about : r.key? = some key) (now : Moment)
    (s : Keyspace) : (r.run (.frozen now) s).1 = (r.effect now (s.live? now key)).1 :=
  (run_effect wf about now s).reply

end ScriptStore
