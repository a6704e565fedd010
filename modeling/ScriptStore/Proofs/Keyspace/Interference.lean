import Mathlib
import ScriptStore.Proofs.Keyspace.Calls

/-!
# Keys do not interfere

What a call finds under a key and what it leaves there is a matter of that key alone. In a run, the
calls that do not name a key may as well be left out, and those that name others besides may be cut
down to it.

* `Call.keys`, `Call.only` — the keys that a call names, and what is left of a call for one key.
* `AgreeAt` — two keyspaces hold the same under a key, expired or not.
* `Confined` — an operation on a key does the same in keyspaces that agree at it, and touches no
  other key; `Request.confined_run` — so does every request about one key.
* `Call.agreeAt_issue`, `Keyspace.agreeAt_issueAll` — one call and its rest for a key lead to the
  same under that key, and so do a run and its rest.
* `keys_do_not_interfere` — **the replies about a key and the entry that is live under it are those
  of the run that is left for that key**.

Nothing here asks that the times of the calls be in order.
-/

namespace ScriptStore

open Keyspace

variable {clock : Readings} {now : Moment} {s t s' t' : Keyspace} {key other name : String}
  {args : List String} {r : Request} {c : Call} {calls : List Call} {command : Command}

/-! ## The keys of a call -/

/-- The keys among the arguments of a command, whatever else the arguments are. -/
def Command.keys : Command → List String → List String
  | .del, args | .exist, args => args
  | .ping, _ | .client, _ | .dbsize, _ | .flushall, _ => []
  | _, args => args.take 1

/-- The arguments of a command for one key. Only lists of keys are cut down. -/
def Command.cut (key : String) : Command → List String → List String
  | .del, args | .exist, args => args.filter (· = key)
  | _, args => args

namespace Call

/-- The keys that a call names. -/
def keys (c : Call) : List String := (Command.ofName? c.name).elim [] fun command =>
  command.keys c.args

/-- A call names a key and no other one. -/
def NamesOnly (key : String) (c : Call) : Prop := c.keys ≠ [] ∧ ∀ other ∈ c.keys, other = key

instance (key : String) (c : Call) : Decidable (c.NamesOnly key) :=
  inferInstanceAs (Decidable (_ ∧ _))

/-- What is left of a call for one key: nothing of a call that does not name it, unless it removes
all keys. -/
def only (key : String) (c : Call) : Option Call :=
  match Command.ofName? c.name with
  | none => none
  | some command =>
    if key ∈ command.keys c.args ∨ command = .flushall then
      some { c with args := command.cut key c.args }
    else none

end Call

/-- The keyspace after more calls. -/
def Keyspace.issueAll (s : Keyspace) (calls : List Call) : Keyspace :=
  calls.foldl (fun s c => (c.issue s).2) s

/-! ## Operations on one key -/

/-- Two keyspaces hold the same under a key, be it expired or not. -/
def AgreeAt (key : String) (s t : Keyspace) : Prop := s.entries[key]? = t.entries[key]?

namespace AgreeAt

theorem refl (key : String) (s : Keyspace) : AgreeAt key s s := rfl

theorem live?_eq (h : AgreeAt key s t) (now : Moment) : s.live? now key = t.live? now key :=
  live?_congr h

/-- Whatever they have held, keyspaces in which a key is bound to the same agree at it. -/
theorem insert (key : String) (e : Entry) (s t : Keyspace) :
    AgreeAt key (s.insert key e) (t.insert key e) := by
  rw [AgreeAt, entries_insert, entries_insert, if_pos rfl, if_pos rfl]

/-- Keyspaces that agree at a key find the same there, and go on to agree. No other key is
touched. -/
theorem exists_lookup (h : AgreeAt key s t) (now : Moment) :
    ∃ found s' t', s.lookup now key = (found, s') ∧ t.lookup now key = (found, t') ∧
      AgreeAt key s' t' ∧ ∀ other, other ≠ key → AgreeAt other s' s := by
  refine ⟨s.live? now key, (s.lookup now key).2, (t.lookup now key).2, ?_, ?_, ?_, ?_⟩
  · exact Prod.ext (lookup_fst s now key) rfl
  · exact Prod.ext ((lookup_fst t now key).trans (h.live?_eq now).symm) rfl
  · rw [AgreeAt, entries_lookup_self, entries_lookup_self]
    exact h.live?_eq now
  · intro other ne
    exact entries_lookup_of_ne s now ne

end AgreeAt

theorem Keyspace.entries_remove (s : Keyspace) (now : Moment) (key other : String) :
    (s.remove now key).2.entries[other]? = if other = key then none else s.entries[other]? := by
  simp only [remove, entries_erase]
  split
  · rfl
  · rename_i ne
    exact entries_lookup_of_ne s now ne

/-- The outcomes of an operation on a key in two keyspaces are the same as far as the key goes, and
the first one leaves all other keys alone. -/
structure Confined (key : String) (s : Keyspace) (a b : Outcome) : Prop where
  reply : a.1 = b.1
  agree : AgreeAt key a.2 b.2
  rest : ∀ other, other ≠ key → AgreeAt other a.2 s

namespace Confined

variable {reply : Except Error Value}

/-- An operation that ends after a lookup. -/
theorem same (agree : AgreeAt key s' t') (rest : ∀ other, other ≠ key → AgreeAt other s' s) :
    Confined key s (reply, s') (reply, t') :=
  ⟨rfl, agree, rest⟩

/-- An operation that ends by binding the key. -/
theorem bound (rest : ∀ other, other ≠ key → AgreeAt other s' s) (e : Entry) (t' : Keyspace) :
    Confined key s (reply, s'.insert key e) (reply, t'.insert key e) := by
  refine ⟨rfl, .insert key e s' t', fun other ne => ?_⟩
  rw [AgreeAt, entries_insert, if_neg ne]
  exact rest other ne

/-- An operation that ends by removing the key. -/
theorem removed (h : AgreeAt key s t) (now : Moment) (reply : Bool → Except Error Value) :
    Confined key s (reply (s.remove now key).1, (s.remove now key).2)
      (reply (t.remove now key).1, (t.remove now key).2) := by
  refine ⟨?_, ?_, fun other ne => ?_⟩
  · rw [remove_fst, remove_fst, h.live?_eq]
  · rw [AgreeAt, entries_remove, entries_remove, if_pos rfl, if_pos rfl]
  · rw [AgreeAt, entries_remove, if_neg ne]

end Confined

namespace AgreeAt

variable (h : AgreeAt key s t) (clock : Readings)
include h

theorem confined_read (reply : Option Data → Except Error Value) :
    Confined key s (s.read clock key reply) (t.read clock key reply) := by
  obtain ⟨found, s', t', hs, ht, agree, rest⟩ := h.exists_lookup (clock 0)
  simp only [Keyspace.read, hs, ht]
  exact .same agree rest

theorem confined_increase (delta : Int64) :
    Confined key s (s.increase clock key delta) (t.increase clock key delta) := by
  obtain ⟨found, s', t', hs, ht, agree, rest⟩ := h.exists_lookup (clock 0)
  simp only [increase, hs, ht]
  cases counter found with
  | error e => exact .same agree rest
  | ok n =>
    simp only
    cases int64OfInt? (n.toInt + delta.toInt) with
    | none => exact .same agree rest
    | some sum =>
      obtain ⟨again, s'', t'', hs', ht', agree', rest'⟩ := agree.exists_lookup (clock 1)
      have hrest : ∀ other, other ≠ key → AgreeAt other s'' s := fun other ne =>
        (rest' other ne).trans (rest other ne)
      simp only [hs', ht']
      cases again with
      | none => exact .bound hrest _ t''
      | some e => exact .bound hrest _ t''

theorem confined_expire (span : Span) :
    Confined key s (s.expire clock key span) (t.expire clock key span) := by
  simp only [expire]
  split
  · exact .removed h (clock 0) fun live => .ok (.count live.toNat)
  · cases span.deadline? (clock 0) with
    | none => exact .same h fun _ _ => rfl
    | some deadline =>
      obtain ⟨found, s', t', hs, ht, agree, rest⟩ := h.exists_lookup (clock 1)
      simp only [hs, ht]
      cases found with
      | none => exact .same agree rest
      | some e => exact .bound rest _ t'

theorem confined_setString (value : String) (expiry : Option Span) :
    Confined key s (s.setString clock key value expiry) (t.setString clock key value expiry) := by
  cases expiry with
  | none => exact .bound (fun _ _ => rfl) _ t
  | some span =>
    simp only [setString]
    cases span.deadline? (clock 0) with
    | none => exact .same h fun _ _ => rfl
    | some deadline => exact .bound (fun _ _ => rfl) _ t

theorem confined_persist :
    Confined key s (s.persist clock key) (t.persist clock key) := by
  obtain ⟨found, s', t', hs, ht, agree, rest⟩ := h.exists_lookup (clock 0)
  simp only [persist, hs, ht]
  rcases found with _ | ⟨data, _ | deadline⟩
  · exact .same agree rest
  · exact .same agree rest
  · exact .bound rest _ t'

theorem confined_remaining (unit : TimeUnit) :
    Confined key s (s.remaining clock key unit) (t.remaining clock key unit) := by
  obtain ⟨found, s', t', hs, ht, agree, rest⟩ := h.exists_lookup (clock 1)
  simp only [remaining, hs, ht]
  rcases found with _ | ⟨data, _ | deadline⟩ <;> exact .same agree rest

/-- Seeing to it that a key holds something is an operation on that key too. -/
theorem ensure (now : Moment) (data : Data) :
    AgreeAt key (s.ensure now key data) (t.ensure now key data) ∧
      ∀ other, other ≠ key → AgreeAt other (s.ensure now key data) s := by
  obtain ⟨found, s', t', hs, ht, agree, rest⟩ := h.exists_lookup now
  simp only [Keyspace.ensure, hs, ht]
  cases found with
  | some e => exact ⟨agree, rest⟩
  | none =>
    refine ⟨.insert key _ s' t', fun other ne => ?_⟩
    rw [AgreeAt, entries_insert, if_neg ne]
    exact rest other ne

theorem confined_grow (a : Addition) :
    Confined key s (s.grow clock key a) (t.grow clock key a) := by
  obtain ⟨agree, rest⟩ := h.ensure (clock 0) a.fresh
  obtain ⟨found, s', t', hs, ht, agree', rest'⟩ := agree.exists_lookup (clock 1)
  have hrest : ∀ other, other ≠ key → AgreeAt other s' s := fun other ne =>
    (rest' other ne).trans (rest other ne)
  simp only [grow, hs, ht]
  cases found with
  | none => exact .same agree' hrest
  | some e =>
    simp only
    cases a.add e.data with
    | none => exact .same agree' hrest
    | some grown => exact .bound hrest _ t'

end AgreeAt

namespace Request

/-- **A request about one key does the same in keyspaces that agree at it, and touches no other
key**, whatever the readings of the clocks. -/
theorem confined_run (about : r.key? = some key) (h : AgreeAt key s t) (clock : Readings) :
    Confined key s (r.run clock s) (r.run clock t) := by
  cases r with
  | get key' => cases about; exact h.confined_read clock Data.stringReply
  | set key' value expiry => cases about; exact h.confined_setString clock value expiry
  | increase key' delta => cases about; exact h.confined_increase clock delta
  | expire key' span => cases about; exact h.confined_expire clock span
  | persist key' => cases about; exact h.confined_persist clock
  | remaining key' unit => cases about; exact h.confined_remaining clock unit
  | setAdd key' members =>
    cases about
    simp only [run, setAdd_eq_grow]
    exact h.confined_grow clock (.members members)
  | setSize key' => cases about; exact h.confined_read clock Data.setSizeReply
  | setMembers key' => cases about; exact h.confined_read clock Data.membersReply
  | sortedAdd key' pairs =>
    cases about
    simp only [run, sortedAdd_eq_grow]
    exact h.confined_grow clock (.scores pairs)
  | sortedSize key' => cases about; exact h.confined_read clock Data.sortedSizeReply
  | del keys =>
    obtain rfl := eq_singleton_of_key?_del about
    exact .removed h (clock 0) fun live => .ok (.count (live.toNat + 0))
  | exist keys =>
    obtain rfl := eq_singleton_of_key?_exist about
    obtain ⟨found, s', t', hs, ht, agree, rest⟩ := h.exists_lookup (clock 0)
    simp only [run, countLive, hs, ht]
    exact .same agree rest
  | _ => cases about

/-! ## Requests and their keys -/

/-- The keys that a request is about. -/
def keys : Request → List String
  | .del keys | .exist keys => keys
  | .get key | .set key _ _ | .increase key _ | .expire key _ | .persist key | .remaining key _
  | .setAdd key _ | .setSize key | .setMembers key | .sortedAdd key _ | .sortedSize key => [key]
  | .ping _ | .setClientName _ | .clientName | .size | .clear => []

/-- What is left of a request for one key. -/
def only (key : String) : Request → Request
  | .del keys => .del (keys.filter (· = key))
  | .exist keys => .exist (keys.filter (· = key))
  | r => r

/-- A request is about the keys that its command names, and about all keys if the command is. -/
theorem keys_of_ofCall (named : Command.ofName? name = some command)
    (h : ofCall name args = .ok r) :
    r.keys = command.keys args ∧ (r = .clear ↔ command = .flushall) := by
  obtain ⟨command', named', asks⟩ := ofCall_eq_ok_iff.mp h
  cases named.symm.trans named'
  cases asks with
  | flushall => exact ⟨rfl, iff_of_true rfl rfl⟩
  | _ => exact ⟨rfl, iff_of_false Request.noConfusion Command.noConfusion⟩

/-- A request that is about one key is all that is left of it for that key. -/
theorem only_eq_self (h : ∀ other ∈ r.keys, other = key) : r.only key = r := by
  cases r with
  | del keys | exist keys =>
    have hkeep : keys.filter (· = key) = keys :=
      List.filter_eq_self.mpr fun other hother => decide_eq_true (h other hother)
    rw [only, hkeep]
  | _ => rfl

theorem ofCall_del (named : Command.ofName? name = some .del) (mem : key ∈ args) :
    ofCall name args = .ok (.del args) := by
  cases args with
  | nil => cases mem
  | cons first rest => simp [ofCall, named, Command.arity, Arity.accepts, ofArguments]

theorem ofCall_exist (named : Command.ofName? name = some .exist) (mem : key ∈ args) :
    ofCall name args = .ok (.exist args) := by
  cases args with
  | nil => cases mem
  | cons first rest => simp [ofCall, named, Command.arity, Arity.accepts, ofArguments]

end Request

/-- A command that is cut down to a key names no other one. -/
theorem Command.eq_of_mem_keys_cut (mem : key ∈ command.keys args ∨ command = .flushall) :
    ∀ other ∈ command.keys (command.cut key args), other = key := by
  intro other hother
  cases command with
  | del | exist => simpa using (List.mem_filter.mp hother).2
  | ping | client | dbsize | flushall => cases hother
  | _ =>
    have hmem : key ∈ args.take 1 := mem.resolve_right nofun
    have hother : other ∈ args.take 1 := hother
    cases args with
    | nil => cases hmem
    | cons first rest =>
      have hfirst := List.mem_singleton.mp hmem
      exact (List.mem_singleton.mp hother).trans hfirst.symm

/-- The request of a command that is cut down to a key is what is left of its request. -/
theorem Request.ofCall_cut (named : Command.ofName? name = some command)
    (mem : key ∈ command.keys args ∨ command = .flushall) :
    ofCall name (command.cut key args) = (ofCall name args).map (only key) := by
  have honly := Command.eq_of_mem_keys_cut mem
  cases command with
  | del =>
    have hmem : key ∈ args := mem.resolve_right nofun
    have hcut : key ∈ args.filter (· = key) := List.mem_filter.mpr ⟨hmem, by simp⟩
    rw [Command.cut, ofCall_del named hcut, ofCall_del named hmem]
    rfl
  | exist =>
    have hmem : key ∈ args := mem.resolve_right nofun
    have hcut : key ∈ args.filter (· = key) := List.mem_filter.mpr ⟨hmem, by simp⟩
    rw [Command.cut, ofCall_exist named hcut, ofCall_exist named hmem]
    rfl
  | _ =>
    simp only [Command.cut] at honly ⊢
    cases hr : ofCall name args with
    | error fault => rfl
    | ok r =>
      have hself : r.only key = r := by
        refine only_eq_self fun other hother => honly other ?_
        rwa [← (keys_of_ofCall named hr).1]
      rw [Except.map, hself]

/-! ## Lists of keys -/

/-- Removing keys one by one leaves nothing under any of them, and all else as it was. -/
theorem Keyspace.entries_removeAll (clock : Readings) (keys : List String) (s : Keyspace) (i : Nat)
    (key : String) :
    (removeAll clock s i keys).2.entries[key]? = if key ∈ keys then none else s.entries[key]? := by
  induction keys generalizing s i with
  | nil => simp [removeAll]
  | cons first keys ih =>
    simp only [removeAll, ih, entries_remove, List.mem_cons]
    by_cases hfirst : key = first
    · simp [hfirst]
    · simp [hfirst]

/-- Looking keys up one by one leaves what is live under any of them, and all else as it was. -/
theorem Keyspace.entries_countLive (now : Moment) (keys : List String) (s : Keyspace) (i : Nat)
    (key : String) :
    (countLive (.frozen now) s i keys).2.entries[key]? =
      if key ∈ keys then s.live? now key else s.entries[key]? := by
  induction keys generalizing s i with
  | nil => simp [countLive]
  | cons first keys ih =>
    have hrest := ih (s.lookup now first).2 (i + 1)
    simp only [countLive, Readings.frozen] at hrest ⊢
    rw [hrest, live?_lookup (Nat.le_refl _)]
    by_cases hfirst : key = first
    · subst hfirst
      rw [entries_lookup_self, ite_self, if_pos (List.mem_cons_self ..)]
    · rw [entries_lookup_of_ne s now hfirst]
      simp [hfirst]

/-- Keyspaces that agree at a key count the same when that key alone is removed. -/
theorem AgreeAt.removeAll_fst (clock : Readings) (keys : List String)
    (all : ∀ other ∈ keys, other = key) (h : AgreeAt key s t) (i : Nat) :
    (removeAll clock s i keys).1 = (removeAll clock t i keys).1 := by
  induction keys generalizing s t i with
  | nil => rfl
  | cons first keys ih =>
    obtain rfl : first = key := all first (List.mem_cons_self ..)
    have hagree : AgreeAt first (s.remove (clock i) first).2 (t.remove (clock i) first).2 := by
      rw [AgreeAt, entries_remove, entries_remove, if_pos rfl, if_pos rfl]
    have hrest := ih (fun other hother => all other (List.mem_cons_of_mem _ hother)) hagree (i + 1)
    simp only [removeAll, hrest, remove_fst, h.live?_eq]

theorem AgreeAt.countLive_fst (clock : Readings) (keys : List String)
    (all : ∀ other ∈ keys, other = key) (h : AgreeAt key s t) (i : Nat) :
    (countLive clock s i keys).1 = (countLive clock t i keys).1 := by
  induction keys generalizing s t i with
  | nil => rfl
  | cons first keys ih =>
    obtain rfl : first = key := all first (List.mem_cons_self ..)
    obtain ⟨found, s', t', hs, ht, agree, -⟩ := h.exists_lookup (clock i)
    have hrest := ih (fun other hother => all other (List.mem_cons_of_mem _ hother)) agree (i + 1)
    simp only [countLive, hs, ht, hrest]

/-! ## Requests and what is left of them -/

namespace Request

/-- A request and what is left of it lead to the same under a key that it is about. -/
theorem agreeAt_run (mem : key ∈ r.keys ∨ r = .clear) (h : AgreeAt key s t) (now : Moment) :
    AgreeAt key (r.run (.frozen now) s).2 ((r.only key).run (.frozen now) t).2 := by
  cases r with
  | del keys =>
    have hmem : key ∈ keys := mem.resolve_right (by simp)
    simp [AgreeAt, run, only, entries_removeAll, hmem]
  | exist keys =>
    have hmem : key ∈ keys := mem.resolve_right (by simp)
    simp [AgreeAt, run, only, entries_countLive, hmem, h.live?_eq now]
  | clear => rfl
  | ping | setClientName | clientName | size => exact absurd mem (by simp [keys])
  | _ =>
    obtain rfl := List.mem_singleton.mp (mem.resolve_right (by simp))
    exact (confined_run rfl h (.frozen now)).agree

/-- A request leaves keys alone that it is not about. -/
theorem agreeAt_run_of_not_mem (nmem : key ∉ r.keys) (some_left : r ≠ .clear) (now : Moment)
    (s : Keyspace) : AgreeAt key (r.run (.frozen now) s).2 s := by
  cases r with
  | del keys =>
    have hnmem : key ∉ keys := nmem
    simp [AgreeAt, run, entries_removeAll, hnmem]
  | exist keys =>
    have hnmem : key ∉ keys := nmem
    simp [AgreeAt, run, entries_countLive, hnmem]
  | ping message => cases message <;> rfl
  | setClientName | clientName | size => rfl
  | clear => exact (some_left rfl).elim
  | _ =>
    have hne := fun heq => nmem (List.mem_singleton.mpr heq)
    exact (confined_run rfl (.refl _ s) (.frozen now)).rest key hne

/-- The reply of a request that is about one key alone hangs on nothing but that key. -/
theorem reply_run_eq (ne : r.keys ≠ []) (all : ∀ other ∈ r.keys, other = key)
    (h : AgreeAt key s t) (clock : Readings) : (r.run clock s).1 = (r.run clock t).1 := by
  cases r with
  | del keys => simp only [run, h.removeAll_fst clock keys all 0]
  | exist keys => simp only [run, h.countLive_fst clock keys all 0]
  | ping | setClientName | clientName | size | clear => exact (ne rfl).elim
  | _ =>
    obtain rfl := all _ (List.mem_singleton.mpr rfl)
    exact (confined_run rfl h clock).reply

end Request

/-! ## Calls and runs -/

namespace Call

/-- **A call and what is left of it for a key lead to the same under that key.** -/
theorem agreeAt_issue (h : AgreeAt key s t) (c : Call) :
    AgreeAt key (c.issue s).2 ((c.only key).elim t fun c => (c.issue t).2) := by
  cases hnamed : Command.ofName? c.name with
  | none =>
    have hunknown : Request.ofCall c.name c.args = .error (.unknown c.name) := by
      rw [Request.ofCall, hnamed]
    have honly : c.only key = none := by rw [only, hnamed]
    rw [issue_of_error hunknown, honly]
    exact h
  | some command =>
    by_cases mem : key ∈ command.keys c.args ∨ command = .flushall
    · have honly : c.only key = some { c with args := command.cut key c.args } := by
        simp only [only, hnamed, if_pos mem]
      have hcut := Request.ofCall_cut hnamed mem
      rw [honly, Option.elim_some]
      cases hr : Request.ofCall c.name c.args with
      | error fault =>
        rw [hr] at hcut
        rw [issue_of_error hr, issue_of_error hcut]
        exact h
      | ok r =>
        rw [hr] at hcut
        obtain ⟨hkeys, hclear⟩ := Request.keys_of_ofCall hnamed hr
        rw [issue_of_ok hr, issue_of_ok hcut]
        exact Request.agreeAt_run (by rwa [hkeys, hclear]) h c.now
    · have honly : c.only key = none := by simp only [only, hnamed, if_neg mem]
      obtain ⟨nmem, nflush⟩ := not_or.mp mem
      rw [honly, Option.elim_none]
      cases hr : Request.ofCall c.name c.args with
      | error fault =>
        rw [issue_of_error hr]
        exact h
      | ok r =>
        obtain ⟨hkeys, hclear⟩ := Request.keys_of_ofCall hnamed hr
        rw [issue_of_ok hr]
        refine (Request.agreeAt_run_of_not_mem ?_ (fun heq => nflush (hclear.mp heq)) _ s).trans h
        rwa [hkeys]

theorem keys_eq (named : Command.ofName? c.name = some command) : c.keys = command.keys c.args := by
  rw [keys, named, Option.elim_some]

/-- The reply of a call that names one key alone hangs on nothing but that key. -/
theorem reply_issue_eq (names : c.NamesOnly key) (h : AgreeAt key s t) :
    (c.issue s).1 = (c.issue t).1 := by
  obtain ⟨ne, all⟩ := names
  cases hnamed : Command.ofName? c.name with
  | none => exact (ne (by rw [keys, hnamed, Option.elim_none])).elim
  | some command =>
    rw [keys_eq hnamed] at ne all
    cases hr : Request.ofCall c.name c.args with
    | error fault => rw [issue_of_error hr, issue_of_error hr]
    | ok r =>
      rw [← (Request.keys_of_ofCall hnamed hr).1] at ne all
      rw [issue_of_ok hr, issue_of_ok hr]
      exact Request.reply_run_eq ne all h (.frozen c.now)

/-- A call that names one key alone is all that is left of it for that key. -/
theorem only_eq_self (names : c.NamesOnly key) : c.only key = some c := by
  obtain ⟨ne, all⟩ := names
  cases hnamed : Command.ofName? c.name with
  | none => exact (ne (by rw [keys, hnamed, Option.elim_none])).elim
  | some command =>
    rw [keys_eq hnamed] at ne all
    obtain ⟨other, hother⟩ := List.exists_mem_of_ne_nil _ ne
    have hmem : key ∈ command.keys c.args := by rwa [← all other hother]
    have hcut : command.cut key c.args = c.args := by
      cases command with
      | del | exist =>
        exact List.filter_eq_self.mpr fun other hother => decide_eq_true (all other hother)
      | _ => rfl
    simp only [only, hnamed, if_pos (Or.inl hmem), hcut]

end Call

/-- **A run and what is left of it for a key lead to the same under that key.** -/
theorem Keyspace.agreeAt_issueAll (calls : List Call) :
    ∀ {s t : Keyspace}, AgreeAt key s t →
      AgreeAt key (s.issueAll calls) (t.issueAll (calls.filterMap (Call.only key))) := by
  induction calls with
  | nil => exact fun h => h
  | cons c calls ih =>
    intro s t h
    have hstep := c.agreeAt_issue h
    cases honly : c.only key with
    | none =>
      rw [honly] at hstep
      rw [List.filterMap_cons_none honly]
      exact ih hstep
    | some cut =>
      rw [honly] at hstep
      rw [List.filterMap_cons_some honly]
      exact ih hstep

/-- **Keys do not interfere.** In any run, whatever the times of its calls: a call that names one
key alone is part of the run that is left for that key, and has the same reply or the same error
there; and both runs end with the same live entry under the key. So a reply about a key and the
entry under it are the same after any two runs of which the same is left for that key, however the
calls that do not name it have been mixed in. -/
theorem keys_do_not_interfere (s : Keyspace) (key : String) :
    (∀ (calls before after : List Call) (c : Call), calls = before ++ c :: after →
      c.NamesOnly key →
      calls.filterMap (Call.only key) =
          before.filterMap (Call.only key) ++ c :: after.filterMap (Call.only key) ∧
        (c.issue (s.issueAll before)).1 =
          (c.issue (s.issueAll (before.filterMap (Call.only key)))).1) ∧
    (∀ (calls : List Call) (now : Moment),
      (s.issueAll calls).live? now key =
        (s.issueAll (calls.filterMap (Call.only key))).live? now key) ∧
    ∀ first second : List Call,
      first.filterMap (Call.only key) = second.filterMap (Call.only key) →
      (∀ c : Call, c.NamesOnly key →
        (c.issue (s.issueAll first)).1 = (c.issue (s.issueAll second)).1) ∧
      ∀ now, (s.issueAll first).live? now key = (s.issueAll second).live? now key := by
  have hleft (calls : List Call) :
      AgreeAt key (s.issueAll calls) (s.issueAll (calls.filterMap (Call.only key))) :=
    agreeAt_issueAll calls (.refl key s)
  refine ⟨?_, fun calls now => (hleft calls).live?_eq now, ?_⟩
  · rintro calls before after c rfl names
    refine ⟨?_, c.reply_issue_eq names (hleft before)⟩
    rw [List.filterMap_append, List.filterMap_cons_some (Call.only_eq_self names)]
  · intro first second same
    have hagree : AgreeAt key (s.issueAll first) (s.issueAll second) := by
      refine (hleft first).trans ?_
      rw [same]
      exact (hleft second).symm
    exact ⟨fun c names => c.reply_issue_eq names hagree, fun now => hagree.live?_eq now⟩

/-- A counter among other keys counts as if it were alone. -/
theorem keys_do_not_interfere_counter :
    let before : List Call :=
      [⟨⟨0, 0⟩, "SET", ["n", "5", "PX", "9"]⟩, ⟨⟨0, 0⟩, "SADD", ["s", "m"]⟩,
        ⟨⟨1, 0⟩, "del", ["s", "n", "m", "n"]⟩, ⟨⟨2, 0⟩, "INCRBY", ["n", "x"]⟩,
        ⟨⟨2, 0⟩, "CLIENT", ["SETNAME", "n"]⟩, ⟨⟨2, 0⟩, "INCR", ["m"]⟩, ⟨⟨2, 0⟩, "INCR", ["n"]⟩]
    let c : Call := ⟨⟨3, 0⟩, "INCR", ["n"]⟩
    let left : List Call :=
      [⟨⟨0, 0⟩, "SET", ["n", "5", "PX", "9"]⟩, ⟨⟨1, 0⟩, "del", ["n", "n"]⟩,
        ⟨⟨2, 0⟩, "INCRBY", ["n", "x"]⟩, ⟨⟨2, 0⟩, "INCR", ["n"]⟩]
    c.NamesOnly "n" ∧ before.filterMap (Call.only "n") = left ∧
      (c.issue (Keyspace.empty.issueAll before)).1 = .ok (.integer 2) := by
  intro before c left
  have names : c.NamesOnly "n" := by decide
  have hleft : before.filterMap (Call.only "n") = left := by cbv
  obtain ⟨hreply, -, -⟩ := keys_do_not_interfere .empty "n"
  obtain ⟨-, hsame⟩ := hreply (before ++ [c]) before [] c rfl names
  refine ⟨names, hleft, ?_⟩
  rw [hsame, hleft]
  cbv

end ScriptStore
