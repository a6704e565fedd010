import ScriptStore.Keyspace.Request
import ScriptStore.Proofs.Number.Integer

/-!
# What arguments ask for

Arguments are read before the keyspace is looked at. This module says, command by command, which
arguments ask for which request, so that no later proof has to go through the reader again.

* `Command.Asks` — the arguments with which a command asks for a request.
* `Request.ofArguments_eq_ok_iff`, `Request.ofCall_eq_ok_iff` — **a request is made exactly if it is
  asked for**.
-/

namespace ScriptStore

variable {command : Command} {name : String} {args : List String} {r : Request} {n : Int64}

namespace Request

/-! ## Parts of arguments -/

/-- What a sequence of two steps gives, both steps have given. -/
theorem exists_of_bind_eq_ok {α β : Type} {x : Except CommandFault α}
    {f : α → Except CommandFault β} {b : β} (h : x >>= f = .ok b) :
    ∃ a, x = .ok a ∧ f a = .ok b := by
  cases x with
  | error fault => cases h
  | ok a => exact ⟨a, rfl, h⟩

theorem integerArgument_eq_ok_iff {text : String} :
    integerArgument text = .ok n ↔ readInt64? text = some n := by
  rw [integerArgument]
  cases readInt64? text <;> simp

/-- Scores and members come in pairs. -/
theorem length_of_scoredMembers {scores : List (Float × String)}
    (h : scoredMembers args = .ok scores) : args.length = 2 * scores.length := by
  induction args using scoredMembers.induct generalizing scores with
  | case1 =>
    cases h
    rfl
  | case2 text member rest ih =>
    obtain ⟨score, -, h⟩ := exists_of_bind_eq_ok h
    obtain ⟨more, hmore, h⟩ := exists_of_bind_eq_ok h
    cases h
    have hrest := ih hmore
    simp only [List.length_cons, hrest]
    omega
  | case3 => cases h

end Request

/-! ## Commands and requests -/

/-- The arguments with which a command asks for a request. -/
inductive Command.Asks : Command → List String → Request → Prop where
  | ping : Asks .ping [] (.ping none)
  | pingWith (message : String) : Asks .ping [message] (.ping (some message))
  | get (key : String) : Asks .get [key] (.get key)
  | set (key value : String) {options : List String} {expiry : Option Span}
      (h : Request.expiryOptions options = .ok expiry) :
      Asks .set (key :: value :: options) (.set key value expiry)
  | del {keys : List String} (some : keys ≠ []) : Asks .del keys (.del keys)
  | exist {keys : List String} (some : keys ≠ []) : Asks .exist keys (.exist keys)
  | incr (key : String) : Asks .incr [key] (.increase key 1)
  | decr (key : String) : Asks .decr [key] (.increase key (-1))
  | incrby (key : String) {amount : String} {n : Int64} (h : readInt64? amount = some n) :
      Asks .incrby [key, amount] (.increase key n)
  | decrby (key : String) {amount : String} {n opposite : Int64} (h : readInt64? amount = some n)
      (h' : opposite.toInt = -n.toInt) : Asks .decrby [key, amount] (.increase key opposite)
  | expire (key : String) {amount : String} {n : Int64} (h : readInt64? amount = some n) :
      Asks .expire [key, amount] (.expire key ⟨n, .seconds⟩)
  | pexpire (key : String) {amount : String} {n : Int64} (h : readInt64? amount = some n) :
      Asks .pexpire [key, amount] (.expire key ⟨n, .millis⟩)
  | persist (key : String) : Asks .persist [key] (.persist key)
  | ttl (key : String) : Asks .ttl [key] (.remaining key .seconds)
  | pttl (key : String) : Asks .pttl [key] (.remaining key .millis)
  | sadd (key : String) {members : List String} (some : members ≠ []) :
      Asks .sadd (key :: members) (.setAdd key members)
  | scard (key : String) : Asks .scard [key] (.setSize key)
  | smembers (key : String) : Asks .smembers [key] (.setMembers key)
  | zadd (key : String) {args : List String} {scores : List (Float × String)}
      (some : scores ≠ []) (h : Request.scoredMembers args = .ok scores) :
      Asks .zadd (key :: args) (.sortedAdd key scores)
  | zcard (key : String) : Asks .zcard [key] (.sortedSize key)
  | setClientName {sub name : String} (h : asciiLower sub = "setname")
      (h' : name.toList.contains ' ' = false) : Asks .client [sub, name] (.setClientName name)
  | clientName {sub : String} (h : asciiLower sub = "getname") : Asks .client [sub] .clientName
  | dbsize : Asks .dbsize [] .size
  | flushall : Asks .flushall [] .clear

namespace Request

theorem asks_of_clientArguments {sub : String} (h : clientArguments sub args = .ok r) :
    Command.client.Asks (sub :: args) r := by
  unfold clientArguments at h
  simp only at h
  split at h
  · rename_i hset
    split at h
    · split at h
      · cases h
      · rename_i name hblank
        cases h
        exact .setClientName hset (Bool.eq_false_iff.mpr hblank)
    · cases h
  · split at h
    · rename_i hget
      split at h
      · cases h
        exact .clientName hget
      · cases h
    · cases h

theorem asks_of_ofArguments (h : ofArguments command args = .ok r) : command.Asks args r := by
  unfold ofArguments at h
  split at h
  case h_4 key value options =>
    obtain ⟨expiry, hexpiry, h⟩ := exists_of_bind_eq_ok h
    cases h
    exact .set key value hexpiry
  -- the commands that read one number
  case h_9 key amount | h_11 key amount | h_12 key amount =>
    obtain ⟨n, hn, h⟩ := exists_of_bind_eq_ok h
    cases h
    constructor
    exact integerArgument_eq_ok_iff.mp hn
  case h_10 key amount =>
    obtain ⟨n, hn, h⟩ := exists_of_bind_eq_ok h
    split at h
    · rename_i opposite hopposite
      cases h
      exact .decrby key (integerArgument_eq_ok_iff.mp hn) (int64OfInt?_eq_some_iff.mp hopposite)
    · cases h
  case h_19 key score member rest =>
    split at h
    · obtain ⟨scores, hscores, h⟩ := exists_of_bind_eq_ok h
      cases h
      refine .zadd key ?_ hscores
      rintro rfl
      have hlength := length_of_scoredMembers hscores
      simp at hlength
    · cases h
  case h_21 sub rest => exact asks_of_clientArguments h
  case h_24 => cases h
  all_goals
    cases h
    constructor
  all_goals exact List.cons_ne_nil _ _

/-- **Arguments make a request exactly if the command asks for it with them.** -/
theorem ofArguments_eq_ok_iff : ofArguments command args = .ok r ↔ command.Asks args r := by
  refine ⟨asks_of_ofArguments, fun h => ?_⟩
  cases h with
  | set key value h => simp only [ofArguments, h]; rfl
  | del some | exist some | sadd key some =>
    obtain ⟨first, rest, rfl⟩ := List.exists_cons_of_ne_nil some
    rfl
  | incrby key h | expire key h | pexpire key h =>
    simp only [ofArguments, integerArgument_eq_ok_iff.mpr h]
    rfl
  | decrby key h h' =>
    simp only [ofArguments, integerArgument_eq_ok_iff.mpr h, bind, Except.bind,
      int64OfInt?_eq_some_iff.mpr h']
    rfl
  | @zadd key args scores some h =>
    have hlength := length_of_scoredMembers h
    have hpos : 0 < scores.length := List.length_pos_iff.mpr some
    match args, hlength, h with
    | score :: member :: rest, hlength, h =>
      have heven : rest.length % 2 = 0 := by
        simp only [List.length_cons] at hlength
        omega
      simp only [ofArguments, if_pos heven, h]
      rfl
    | [_], hlength, _ | [], hlength, _ =>
      simp only [List.length_cons, List.length_nil] at hlength
      omega
  | setClientName h h' =>
    simp only [ofArguments, clientArguments, h, h']
    rfl
  | clientName h =>
    simp only [ofArguments, clientArguments, h]
    rfl
  | _ => rfl

theorem accepts_of_asks (h : command.Asks args r) : command.arity.accepts args.length = true := by
  cases h with
  | del some | exist some | sadd key some =>
    obtain ⟨first, rest, rfl⟩ := List.exists_cons_of_ne_nil some
    simp [Command.arity, Arity.accepts]
  | zadd key some h =>
    have hlength := length_of_scoredMembers h
    have hpos := List.length_pos_iff.mpr some
    simp only [Command.arity, Arity.accepts, List.length_cons, decide_eq_true_eq]
    omega
  | set => simp [Command.arity, Arity.accepts]
  | setClientName => simp [Command.arity, Arity.accepts]
  | _ => rfl

/-- **A call makes a request exactly if its command asks for it with the arguments.** -/
theorem ofCall_eq_ok_iff : ofCall name args = .ok r ↔
    ∃ command, Command.ofName? name = some command ∧ command.Asks args r := by
  rw [ofCall]
  cases hnamed : Command.ofName? name with
  | none => simp
  | some command =>
    simp only [Option.some.injEq, exists_eq_left']
    by_cases haccepts : command.arity.accepts args.length = true
    · rw [if_pos haccepts, ofArguments_eq_ok_iff]
    · rw [if_neg haccepts]
      exact iff_of_false (by simp) fun h => haccepts (accepts_of_asks h)

end Request

end ScriptStore
