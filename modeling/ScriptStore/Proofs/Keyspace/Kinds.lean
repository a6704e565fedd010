import Mathlib
import ScriptStore.Proofs.Keyspace.Contents
import ScriptStore.Proofs.Keyspace.Counter
import ScriptStore.Proofs.Keyspace.View

/-!
# The kinds of what keys hold

A key holds a string, a set or a sorted set. Some commands need one of these under their key, and a
live key that holds another is refused by them. Nobody but a command that binds the key anew gives a
live key data of another kind.

* `Kind`, `Data.kind`, `Command.needs?` — the kinds, and the one that a command needs.
* `Command.NumbersRead` — the numbers among the arguments of such a command can be read.
* `Request.exists_asks_iff` — with these, and with a right count of arguments, a command asks for a
  request; so a wrong type comes last among the reasons to refuse one.
* `Request.reply_run_eq_wrongType_iff` — a request is refused for its type exactly if its live key
  holds another kind than it needs.
* `Request.kind_run` — what one request does to the kind under a live key.
* `wrong_type_is_exact_and_kinds_last` — **a command replies that the type is wrong exactly if its
  key is live, holds another kind than the command needs, and nothing else is wrong; and while a key
  stays live only a command that binds it anew changes the kind that it holds**.
-/

namespace ScriptStore

open Keyspace

variable {clock : Readings} {now start : Moment} {s t : Keyspace} {key name : String}
  {args : List String} {e e' : Entry} {r : Request} {command : Command} {commands : List Issued}

/-! ## Kinds -/

/-- What kind of data a key holds. -/
inductive Kind where
  | string
  | set
  | sortedSet
  deriving DecidableEq, Repr

/-- The kind of data. -/
def Data.kind : Data → Kind
  | .string _ => .string
  | .set _ => .set
  | .sortedSet _ => .sortedSet

/-- The kind that a command needs under its key. -/
def Command.needs? : Command → Option Kind
  | .get | .incr | .decr | .incrby | .decrby => some .string
  | .sadd | .scard | .smembers => some .set
  | .zadd | .zcard => some .sortedSet
  | _ => none

/-- The kind that a request needs under its key. -/
def Request.needs? : Request → Option Kind
  | .get _ | .increase _ _ => some .string
  | .setAdd _ _ | .setSize _ | .setMembers _ => some .set
  | .sortedAdd _ _ | .sortedSize _ => some .sortedSet
  | _ => none

/-- The numbers among the arguments of a command that needs a kind can be read: an amount is an
integer, and one that can be taken away if it is to be taken away; scores and members come in pairs,
and every score is a number. -/
def Command.NumbersRead : Command → List String → Prop
  | .incrby, [_, amount] => ∃ n, readInt64? amount = some n
  | .decrby, [_, amount] => ∃ n, readInt64? amount = some n ∧ n ≠ Int64.minValue
  | .zadd, _ :: scored =>
    ∃ pairs : List (String × String), scored = pairs.flatMap (fun pair => [pair.1, pair.2]) ∧
      ∀ pair ∈ pairs, ∃ score, readFloat? pair.1 = some score ∧ score.isNaN = false
  | _, _ => True

/-! ## Arguments that ask for a request -/

namespace Request

/-- Scores and members are read exactly if they come in pairs and every score is a number. -/
theorem exists_scoredMembers_iff : (∃ scores, scoredMembers args = .ok scores) ↔
    ∃ pairs : List (String × String), args = pairs.flatMap (fun pair => [pair.1, pair.2]) ∧
      ∀ pair ∈ pairs, ∃ score, readFloat? pair.1 = some score ∧ score.isNaN = false := by
  constructor
  · rintro ⟨scores, h⟩
    induction args using scoredMembers.induct generalizing scores with
    | case1 => exact ⟨[], rfl, by simp⟩
    | case2 text member rest ih =>
      obtain ⟨score, hscore, h⟩ := exists_of_bind_eq_ok h
      obtain ⟨more, hmore, h⟩ := exists_of_bind_eq_ok h
      obtain ⟨pairs, rfl, hpairs⟩ := ih more hmore
      refine ⟨(text, member) :: pairs, rfl, ?_⟩
      intro pair hpair
      rcases List.mem_cons.mp hpair with rfl | hpair
      · exact ⟨score, scoreArgument_eq_ok_iff.mp hscore⟩
      · exact hpairs pair hpair
    | case3 => cases h
  · rintro ⟨pairs, rfl, hpairs⟩
    induction pairs with
    | nil => exact ⟨[], rfl⟩
    | cons pair pairs ih =>
      obtain ⟨score, hscore⟩ := hpairs pair (by simp)
      obtain ⟨scores, hscores⟩ := ih fun pair hpair => hpairs pair (by simp [hpair])
      refine ⟨(score, pair.2) :: scores, ?_⟩
      simp only [List.flatMap_cons, List.cons_append, List.nil_append, scoredMembers,
        scoreArgument_eq_ok_iff.mpr hscore, hscores]
      rfl

theorem needs?_of_asks (h : command.Asks args r) : r.needs? = command.needs? := by
  cases h <;> rfl

/-- A request that needs a kind needs it under the first of its arguments. -/
theorem key?_of_asks (h : command.Asks args r) {kind : Kind} (needs : command.needs? = some kind) :
    r.key? = args.head? := by
  cases h <;> first | rfl | cases needs

/-- Only one command binds a key to a string whatever the key holds. -/
theorem eq_set_of_asks {value : String} {expiry : Option Span}
    (h : command.Asks args (.set key value expiry)) : command = .set ∧ args.head? = some key := by
  cases h
  exact ⟨rfl, rfl⟩

theorem numbersRead_of_asks (h : command.Asks args r) : command.NumbersRead args := by
  cases h with
  | incrby key h => exact ⟨_, h⟩
  | decrby key h h' => exact ⟨_, h, exists_opposite_iff.mp ⟨_, h'⟩⟩
  | zadd key some h => exact exists_scoredMembers_iff.mp ⟨_, h⟩
  | _ => trivial

/-- **A command that needs a kind asks for a request exactly if the count of its arguments is right
and the numbers among them can be read.** -/
theorem exists_asks_iff {kind : Kind} (needs : command.needs? = some kind) :
    (∃ r, command.Asks args r) ↔
      command.arity.accepts args.length = true ∧ command.NumbersRead args := by
  constructor
  · rintro ⟨r, h⟩
    exact ⟨accepts_of_asks h, numbersRead_of_asks h⟩
  rintro ⟨accepts, reads⟩
  cases command
  -- commands of one key
  case get | incr | decr | scard | smembers | zcard =>
    obtain ⟨key, rfl⟩ := List.length_eq_one_iff.mp (of_decide_eq_true accepts)
    exact ⟨_, by constructor⟩
  case incrby =>
    obtain ⟨key, amount, rfl⟩ := List.length_eq_two.mp (of_decide_eq_true accepts)
    obtain ⟨n, hn⟩ := reads
    exact ⟨_, .incrby key hn⟩
  case decrby =>
    obtain ⟨key, amount, rfl⟩ := List.length_eq_two.mp (of_decide_eq_true accepts)
    obtain ⟨n, hn, hmin⟩ := reads
    obtain ⟨opposite, hopposite⟩ := exists_opposite_iff.mpr hmin
    exact ⟨_, .decrby key hn hopposite⟩
  case sadd =>
    match args, of_decide_eq_true accepts with
    | key :: member :: members, _ => exact ⟨_, .sadd key (List.cons_ne_nil member members)⟩
  case zadd =>
    match args, of_decide_eq_true accepts with
    | key :: score :: member :: rest, _ =>
      obtain ⟨scores, hscores⟩ := exists_scoredMembers_iff.mpr reads
      refine ⟨_, .zadd key ?_ hscores⟩
      rintro rfl
      have hlength := length_of_scoredMembers hscores
      simp at hlength
  all_goals cases needs

/-! ## Replies -/

/-- The reply of a request is that the type is wrong exactly if it finds another kind than it
needs. -/
theorem effect_eq_wrongType_iff {found : Option Entry} :
    (r.effect now found).1 = .error .wrongType ↔
      ∃ kind e, r.needs? = some kind ∧ found = some e ∧ e.data.kind ≠ kind := by
  cases r with
  | get | setSize | setMembers | sortedSize =>
    rcases found with _ | ⟨data, deadline⟩
    · simp [effect, needs?, Data.stringReply, Data.setSizeReply, Data.membersReply,
        Data.sortedSizeReply]
    · cases data <;>
        simp [effect, needs?, Data.stringReply, Data.setSizeReply, Data.membersReply,
          Data.sortedSizeReply, Data.kind]
  | increase key delta =>
    rcases found with _ | ⟨data, deadline⟩
    · simp only [effect, counter]
      split <;> simp
    · cases data with
      | string text =>
        simp only [effect, counter]
        cases readInt64? text with
        | none => simp [needs?, Data.kind]
        | some n =>
          simp only
          split <;> simp [needs?, Data.kind]
      | set | sortedSet => simp [effect, counter, needs?, Data.kind]
  | setAdd | sortedAdd =>
    rcases found with _ | ⟨data, deadline⟩
    · simp [effect, needs?, Entry.lasting]
    · cases data <;> simp [effect, needs?, Data.kind]
  | set key value expiry =>
    cases expiry with
    | none => simp [effect, needs?]
    | some span =>
      simp only [effect]
      split <;> simp [needs?]
  | expire key span =>
    simp only [effect]
    split
    · simp [needs?]
    · split <;> simp [needs?]
  | _ => simp [effect, needs?]

/-- A request without a key of its own is never refused for a type. -/
theorem reply_run_ne_wrongType (h : r.key? = none) (clock : Readings) (s : Keyspace) :
    (r.run clock s).1 ≠ .error .wrongType := by
  cases r with
  | ping message => cases message <;> simp [run]
  | del | exist | setClientName | clientName | size | clear => simp [run]
  | _ => cases h

/-- **A request is refused for its type exactly if its live key holds another kind than it
needs.** -/
theorem reply_run_eq_wrongType_iff (wf : r.WellFormed) (now : Moment) (s : Keyspace) :
    (r.run (.frozen now) s).1 = .error .wrongType ↔
      ∃ kind key e, r.needs? = some kind ∧ r.key? = some key ∧ s.live? now key = some e ∧
        e.data.kind ≠ kind := by
  cases hkey : r.key? with
  | none => simp [reply_run_ne_wrongType hkey]
  | some key =>
    rw [reply_run wf hkey, effect_eq_wrongType_iff]
    simp

end Request

/-- **A command replies that the type is wrong exactly if its key is live, holds another kind than
the command needs, and nothing else is wrong.** -/
theorem Keyspace.reply_eq_wrongType_iff :
    (s.dispatch (.frozen now) name args).1 = .error .wrongType ↔
      ∃ command kind key e, Command.ofName? name = some command ∧ command.needs? = some kind ∧
        args.head? = some key ∧ command.arity.accepts args.length = true ∧
        command.NumbersRead args ∧ s.live? now key = some e ∧ e.data.kind ≠ kind := by
  rw [dispatch]
  constructor
  · intro h
    cases hcall : Request.ofCall name args with
    | error fault => simp [hcall] at h
    | ok r =>
      simp only [hcall] at h
      obtain ⟨command, hnamed, hasks⟩ := Request.ofCall_eq_ok_iff.mp hcall
      have wf := Request.wellFormed_of_ofCall hcall
      obtain ⟨kind, key, e, hneeds, hkey, hlive, hkind⟩ :=
        (Request.reply_run_eq_wrongType_iff wf now s).mp h
      rw [Request.needs?_of_asks hasks] at hneeds
      rw [Request.key?_of_asks hasks hneeds] at hkey
      exact ⟨command, kind, key, e, hnamed, hneeds, hkey, Request.accepts_of_asks hasks,
        Request.numbersRead_of_asks hasks, hlive, hkind⟩
  · rintro ⟨command, kind, key, e, hnamed, hneeds, hkey, haccepts, hreads, hlive, hkind⟩
    obtain ⟨r, hasks⟩ := (Request.exists_asks_iff hneeds).mpr ⟨haccepts, hreads⟩
    have hcall : Request.ofCall name args = .ok r :=
      Request.ofCall_eq_ok_iff.mpr ⟨command, hnamed, hasks⟩
    have wf := Request.wellFormed_of_ofCall hcall
    simp only [hcall]
    apply (Request.reply_run_eq_wrongType_iff wf now s).mpr
    refine ⟨kind, key, e, ?_, ?_, hlive, hkind⟩
    · rw [Request.needs?_of_asks hasks, hneeds]
    · rw [Request.key?_of_asks hasks hneeds, hkey]

/-! ## What one command does to a kind -/

/-- What is added to keeps its kind. -/
theorem Addition.kind_members {members : List String} {n : Nat} {data data' : Data}
    (h : (Addition.members members).add data = some (n, data')) : data'.kind = data.kind := by
  cases data with
  | set old => cases h; rfl
  | string | sortedSet => cases h

theorem Addition.kind_scores {pairs : List (Float × String)} {n : Nat} {data data' : Data}
    (h : (Addition.scores pairs).add data = some (n, data')) : data'.kind = data.kind := by
  cases data with
  | sortedSet old => cases h; rfl
  | string | set => cases h

/-- A counter is a string. -/
theorem Keyspace.kind_of_counter {n : Int64} (h : counter (some e) = .ok n) :
    e.data.kind = .string := by
  obtain ⟨data, deadline⟩ := e
  cases data with
  | string text => rfl
  | set | sortedSet => cases h

namespace Keyspace

section

variable (live : ∀ i, s.live? (clock i) key = some e)
include live

theorem kind_increase (delta : Int64)
    (h : (s.increase clock key delta).2.entries[key]? = some e') : e'.data.kind = e.data.kind := by
  have hentry : s.entries[key]? = some e := (live?_eq_some_iff.mp (live 0)).1
  simp only [increase, lookup_eq_of_live? (live 0)] at h
  split at h
  · rw [hentry] at h
    cases h
    rfl
  · rename_i current hcounter
    split at h
    · rw [hentry] at h
      cases h
      rfl
    · simp only [lookup_eq_of_live? (live 1), entries_insert, if_true, Option.some.injEq] at h
      rw [← h, kind_of_counter hcounter]
      rfl

theorem kind_expire (span : Span) (h : (s.expire clock key span).2.entries[key]? = some e') :
    e'.data.kind = e.data.kind := by
  have hentry : s.entries[key]? = some e := (live?_eq_some_iff.mp (live 0)).1
  simp only [expire] at h
  split at h
  · simp only [entries_remove, if_true, reduceCtorEq] at h
  · split at h
    · rw [hentry] at h
      cases h
      rfl
    · simp only [lookup_eq_of_live? (live 1), entries_insert, if_true, Option.some.injEq] at h
      rw [← h]

theorem kind_persist (h : (s.persist clock key).2.entries[key]? = some e') :
    e'.data.kind = e.data.kind := by
  have hentry : s.entries[key]? = some e := (live?_eq_some_iff.mp (live 0)).1
  obtain ⟨data, deadline⟩ := e
  simp only [persist, lookup_eq_of_live? (live 0)] at h
  cases deadline with
  | none =>
    rw [hentry] at h
    cases h
    rfl
  | some d =>
    simp only [entries_insert, if_true, Option.some.injEq] at h
    rw [← h]
    rfl

theorem kind_grow {a : Addition}
    (kind_add : ∀ n data data', a.add data = some (n, data') → data'.kind = data.kind)
    (h : (s.grow clock key a).2.entries[key]? = some e') : e'.data.kind = e.data.kind := by
  have hentry : s.entries[key]? = some e := (live?_eq_some_iff.mp (live 0)).1
  simp only [grow, ensure_of_live? (live 0), lookup_eq_of_live? (live 1)] at h
  split at h
  · rw [hentry] at h
    cases h
    rfl
  · rename_i n data hadd
    simp only [entries_insert, if_true, Option.some.injEq] at h
    rw [← h]
    exact kind_add n e.data data hadd

/-- **A request leaves data of the same kind under a live key, or it binds the key anew.** -/
theorem kind_run (r : Request) (h : (r.run clock s).2.entries[key]? = some e') :
    e'.data.kind = e.data.kind ∨
      (∃ value expiry, r = .set key value expiry) ∧ (r.run clock s).1 = .ok .ok := by
  have hentry : s.entries[key]? = some e := (live?_eq_some_iff.mp (live 0)).1
  rcases r.leaves_or_writesTo key with ⟨only, hr⟩ | writes
  · rcases Request.leavesAt_run only hr clock s with hsame | ⟨hdropped, -⟩
    · rw [hsame, hentry] at h
      cases h
      exact .inl rfl
    · rw [hdropped] at h
      cases h
  cases writes with
  | set value expiry =>
    simp only [Request.run] at h ⊢
    cases expiry with
    | none => exact .inr ⟨⟨value, none, rfl⟩, rfl⟩
    | some span =>
      simp only [setString] at h ⊢
      split at h
      · rw [hentry] at h
        cases h
        exact .inl rfl
      · exact .inr ⟨⟨value, some span, rfl⟩, rfl⟩
  | increase delta => exact .inl (kind_increase live delta h)
  | expire span => exact .inl (kind_expire live span h)
  | persist => exact .inl (kind_persist live h)
  | setAdd members =>
    rw [Request.run, setAdd_eq_grow] at h
    exact .inl (kind_grow live (fun _ _ _ => Addition.kind_members) h)
  | sortedAdd pairs =>
    rw [Request.run, sortedAdd_eq_grow] at h
    exact .inl (kind_grow live (fun _ _ _ => Addition.kind_scores) h)
  | del mem =>
    simp only [Request.run, entries_removeAll, if_pos mem, reduceCtorEq] at h
  | clear => simp [Request.run] at h

end

end Keyspace

/-- A command that binds a key to a string and has done so. -/
def Issued.Binds (key : String) (s : Keyspace) (c : Issued) : Prop :=
  Command.ofName? c.name = some .set ∧ c.args.head? = some key ∧ (c.outcome s).1 = .ok .ok

/-- **A command leaves data of the same kind under a live key, or it binds the key anew.** -/
theorem Issued.kind_outcome {c : Issued} (live : ∀ i, s.live? (c.clock i) key = some e)
    (h : (c.outcome s).2.entries[key]? = some e') :
    e'.data.kind = e.data.kind ∨ c.Binds key s := by
  cases hcall : Request.ofCall c.name c.args with
  | error fault =>
    have hentry : s.entries[key]? = some e := (live?_eq_some_iff.mp (live 0)).1
    rw [outcome, dispatch, hcall, hentry] at h
    cases h
    exact .inl rfl
  | ok r =>
    rw [outcome_of_ofCall hcall] at h
    refine (kind_run live r h).imp_right ?_
    rintro ⟨⟨value, expiry, rfl⟩, hreply⟩
    obtain ⟨command, hnamed, hasks⟩ := Request.ofCall_eq_ok_iff.mp hcall
    obtain ⟨rfl, hkey⟩ := Request.eq_set_of_asks hasks
    refine ⟨hnamed, hkey, ?_⟩
    rw [outcome_of_ofCall hcall, hreply]

/-! ## Kinds along a run -/

namespace Keyspace

/-- Every command of a run finds the key live, at each of its readings of the clocks. -/
def StaysLive (key : String) (s : Keyspace) : List Issued → Prop
  | [] => True
  | c :: rest =>
    (∀ i, (s.live? (c.clock i) key).isSome = true) ∧ (c.outcome s).2.StaysLive key rest

theorem staysLive_snoc {c : Issued} : s.StaysLive key (commands ++ [c]) ↔
    s.StaysLive key commands ∧ ∀ i, ((s.replay commands).live? (c.clock i) key).isSome = true := by
  induction commands generalizing s with
  | nil => simp [StaysLive, replay]
  | cons first rest ih =>
    rw [List.cons_append, StaysLive, ih, StaysLive, replay_cons, and_assoc]

/-- A key that is live at all readings of a command holds the same at all of them. -/
theorem exists_live?_of_forall_isSome (h : ∀ i, (s.live? (clock i) key).isSome = true) :
    ∃ e, ∀ i, s.live? (clock i) key = some e := by
  obtain ⟨e, he⟩ := Option.isSome_iff_exists.mp (h 0)
  refine ⟨e, ?_⟩
  intro i
  obtain ⟨e', he'⟩ := Option.isSome_iff_exists.mp (h i)
  have hsame := (live?_eq_some_iff.mp he).1.symm.trans (live?_eq_some_iff.mp he').1
  cases hsame
  exact he'

/-- **While a key stays live only a command that binds it anew changes the kind that it holds.** -/
theorem StaysLive.exists_binds (live : s.StaysLive key commands)
    (begins : s.live? start key = some e) (ends : (s.replay commands).entries[key]? = some e')
    (changed : e'.data.kind ≠ e.data.kind) :
    ∃ before c after, commands = before ++ c :: after ∧ c.Binds key (s.replay before) := by
  -- from the back: what the last command finds is either of the first kind still, or not
  induction commands using List.reverseRecOn generalizing e' with
  | nil =>
    have hentry := (live?_eq_some_iff.mp begins).1
    rw [show s.replay [] = s from rfl, hentry] at ends
    cases ends
    exact absurd rfl changed
  | append_singleton commands c ih =>
    obtain ⟨hbefore, hlast⟩ := staysLive_snoc.mp live
    obtain ⟨found, hfound⟩ := exists_live?_of_forall_isSome hlast
    by_cases hkind : found.data.kind = e.data.kind
    · rw [replay_append] at ends
      rcases Issued.kind_outcome hfound ends with hsame | hbinds
      · exact absurd (hsame.trans hkind) changed
      · exact ⟨commands, c, [], rfl, hbinds⟩
    · have hentry := (live?_eq_some_iff.mp (hfound 0)).1
      obtain ⟨before, first, after, hsplit, hbinds⟩ := ih hbefore hentry hkind
      refine ⟨before, first, after ++ [c], ?_, hbinds⟩
      rw [hsplit, List.append_assoc, List.cons_append]

end Keyspace

/-- **A wrong type is replied exactly when it is one, and kinds last.** Whatever the keyspace is:

* a command that runs at one instant replies that the type is wrong exactly if it is one that needs
  a kind, the count of its arguments is right, the numbers among them can be read, and its key is
  live and holds data of another kind;
* in a run with any readings of the clocks, if each command finds a key live and the kind that it
  holds at the end is not the one from the start, then there is a command in between that has bound
  the key anew. -/
theorem wrong_type_is_exact_and_kinds_last (s : Keyspace) :
    (∀ now name args, (s.dispatch (.frozen now) name args).1 = .error .wrongType ↔
      ∃ command kind key e, Command.ofName? name = some command ∧ command.needs? = some kind ∧
        args.head? = some key ∧ command.arity.accepts args.length = true ∧
        command.NumbersRead args ∧ s.live? now key = some e ∧ e.data.kind ≠ kind) ∧
    ∀ key commands start now e e', s.StaysLive key commands → s.live? start key = some e →
      (s.replay commands).live? now key = some e' → e'.data.kind ≠ e.data.kind →
      ∃ before c after, commands = before ++ c :: after ∧ c.Binds key (s.replay before) := by
  refine ⟨fun now name args => reply_eq_wrongType_iff, ?_⟩
  intro key commands start now e e' live begins ends changed
  exact live.exists_binds begins (live?_eq_some_iff.mp ends).1 changed

/-- A set that expires, and a string. -/
def twoKinds : Keyspace :=
  (Keyspace.empty.insert "s" ⟨.set (.ofList ["m"]), some 100⟩).insert "k" (.lasting (.string "5"))

/-- A counter is refused where a set is, and allowed once the set has expired. -/
theorem wrong_type_is_exact_and_kinds_last_two_kinds :
    (twoKinds.dispatch (.frozen ⟨50, 0⟩) "incrby" ["s", "7"]).1 = .error .wrongType ∧
      (twoKinds.dispatch (.frozen ⟨100, 0⟩) "incrby" ["s", "7"]).1 ≠ .error .wrongType ∧
      ∃ before c after,
        [(⟨.frozen ⟨50, 0⟩, "SADD", ["s", "n"]⟩ : Issued), ⟨.frozen ⟨60, 0⟩, "set", ["s", "v"]⟩] =
            before ++ c :: after ∧
          c.Binds "s" (twoKinds.replay before) := by
  obtain ⟨exact, lasts⟩ := wrong_type_is_exact_and_kinds_last twoKinds
  have hlive : twoKinds.live? ⟨50, 0⟩ "s" = some ⟨.set (.ofList ["m"]), some 100⟩ := by cbv
  have hgone : twoKinds.live? ⟨100, 0⟩ "s" = none := by cbv
  have hreads : readInt64? "7" = some 7 := by cbv
  refine ⟨?_, ?_, ?_⟩
  · apply (exact ⟨50, 0⟩ "incrby" ["s", "7"]).mpr
    exact ⟨.incrby, .string, "s", _, by decide, rfl, rfl, rfl, ⟨7, hreads⟩, hlive, by decide⟩
  · intro hwrong
    obtain ⟨command, kind, key, e, -, -, hkey, -, -, hfound, -⟩ :=
      (exact ⟨100, 0⟩ "incrby" ["s", "7"]).mp hwrong
    cases hkey
    rw [hgone] at hfound
    cases hfound
  · refine lasts "s" _ ⟨0, 0⟩ ⟨60, 0⟩ ⟨.set (.ofList ["m"]), some 100⟩ (.lasting (.string "v"))
      ⟨?_, ?_, trivial⟩ ?_ ?_ (by decide)
    · intro i
      cbv
    · intro i
      cbv
    · cbv
    · cbv

end ScriptStore
