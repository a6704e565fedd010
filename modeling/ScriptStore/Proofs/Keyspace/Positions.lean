import ScriptStore.Keyspace.Request
import ScriptStore.Proofs.Number.Words

/-!
# Arguments by position

Arguments can be taken apart by their forms, or they can be taken by their positions, with trust
that the count of arguments is right. The second way faults where the trust is misplaced.

* `Fault` — what ends a program that takes positions or words for granted.
* `Positional` — a reading of arguments by position. It may fault, and it may refuse the arguments.
* `Request.byPosition` — the request that a command's arguments make, each argument taken by its
  position.
* `Request.byPosition_eq` — **a count of arguments that a command accepts has all the positions that
  the command takes**, and both ways make the same request or refuse for the same reason.
-/

namespace ScriptStore

variable {command : Command} {args : List String}

/-- What ends a program that takes positions and words for granted: nothing is at a position, or a
word is too small for a number. -/
inductive Fault where
  | position
  | range
  deriving DecidableEq, Repr

/-- A reading of arguments by position. It may fault, and it may refuse the arguments. -/
abbrev Positional (α : Type) := ExceptT CommandFault (Except Fault) α

namespace Positional

/-- The argument at a position. -/
def argument (args : List String) (i : Nat) : Positional String :=
  match args[i]? with
  | some text => .mk (.ok (.ok text))
  | none => .mk (.error .position)

/-- The arguments from a position on, which may be the one after the last. -/
def arguments (args : List String) (i : Nat) : Positional (List String) :=
  if i ≤ args.length then .mk (.ok (.ok (args.drop i))) else .mk (.error .position)

/-- What does not hang on positions: a part of arguments that is read, or refused. -/
def judged {α : Type} (read : Except CommandFault α) : Positional α := .mk (.ok read)

section

variable {α β : Type} {first second : String} {rest : List String}

@[simp] theorem argument_zero : argument (first :: rest) 0 = pure first := rfl

@[simp] theorem argument_one : argument (first :: second :: rest) 1 = pure second := rfl

@[simp] theorem arguments_one : arguments (first :: rest) 1 = pure rest := by
  rw [arguments, if_pos (by simp)]
  rfl

@[simp] theorem arguments_two : arguments (first :: second :: rest) 2 = pure rest := by
  rw [arguments, if_pos (by simp)]
  rfl

/-- What does not hang on positions can be judged at once. -/
@[simp] theorem judged_bind (read : Except CommandFault α) (f : α → Except CommandFault β) :
    (judged read >>= fun a => judged (f a)) = judged (read >>= f) := by
  cases read <;> rfl

@[simp] theorem judged_bind_pure (read : Except CommandFault α) (f : α → β) :
    (judged read >>= fun a => pure (f a)) = judged (read >>= fun a => pure (f a)) :=
  judged_bind read fun a => pure (f a)

end

end Positional

/-- A list cut into pieces of two. The last piece may be shorter. -/
def piecesOfTwo {α : Type} : List α → List (List α)
  | [] => []
  | [a] => [[a]]
  | a :: b :: rest => [a, b] :: piecesOfTwo rest

namespace Request

open Positional

/-- Scores and members, each pair by its two positions. -/
def scoredPieces : List (List String) → Positional (List (Float × String))
  | [] => return []
  | pair :: rest => do
    let score ← judged (scoreArgument (← argument pair 0))
    let member ← argument pair 1
    let rest ← scoredPieces rest
    return (score, member) :: rest

/-- The opposite of an amount, if it has one. -/
def opposite (amount : Int64) : Except CommandFault Int64 :=
  match checkedNeg amount with
  | some delta => .ok delta
  | none => .error .decrementOverflow

/-- The request that a command's arguments make, each argument taken by its position. -/
def byPosition (command : Command) (args : List String) : Positional Request :=
  match command with
  | .ping => return .ping args.head?
  | .get => return .get (← argument args 0)
  | .set => do
    let expiry ← judged (expiryOptions (← arguments args 2))
    let value ← argument args 1
    return .set (← argument args 0) value expiry
  | .del => return .del args
  | .exist => return .exist args
  | .incr => return .increase (← argument args 0) 1
  | .decr => return .increase (← argument args 0) (-1)
  | .incrby => do
    let key ← argument args 0
    let delta ← judged (integerArgument (← argument args 1))
    return .increase key delta
  | .decrby => do
    let amount ← judged (integerArgument (← argument args 1))
    let delta ← judged (opposite amount)
    return .increase (← argument args 0) delta
  | .expire => do
    let amount ← judged (integerArgument (← argument args 1))
    return .expire (← argument args 0) ⟨amount, .seconds⟩
  | .pexpire => do
    let amount ← judged (integerArgument (← argument args 1))
    return .expire (← argument args 0) ⟨amount, .millis⟩
  | .persist => return .persist (← argument args 0)
  | .ttl => return .remaining (← argument args 0) .seconds
  | .pttl => return .remaining (← argument args 0) .millis
  | .sadd => do
    let key ← argument args 0
    return .setAdd key (← arguments args 1)
  | .scard => return .setSize (← argument args 0)
  | .smembers => return .setMembers (← argument args 0)
  | .zadd => do
    let key ← argument args 0
    let pairs ← arguments args 1
    if pairs.length % 2 = 0 then return .sortedAdd key (← scoredPieces (piecesOfTwo pairs))
    else judged (.error .malformed)
  | .zcard => return .sortedSize (← argument args 0)
  | .client => do
    let sub ← argument args 0
    judged (clientArguments sub (← arguments args 1))
  | .dbsize => return .size
  | .flushall => return .clear

/-! ## Counts that are accepted -/

/-- A count that is even leaves no piece without its second position. -/
theorem scoredPieces_eq (even : args.length % 2 = 0) :
    scoredPieces (piecesOfTwo args) = judged (scoredMembers args) := by
  induction args using scoredMembers.induct with
  | case1 => rfl
  | case2 text member rest ih =>
    have hrest : rest.length % 2 = 0 := by
      simp only [List.length_cons] at even
      omega
    simp only [piecesOfTwo, scoredPieces, scoredMembers, ih hrest, argument_zero, argument_one,
      pure_bind, judged_bind_pure, judged_bind]
  | case3 => simp at even

/-- **A count of arguments that a command accepts has all the positions that the command takes.**
No reading of arguments by position faults, and it comes to the same. -/
theorem byPosition_eq (accepts : command.arity.accepts args.length = true) :
    byPosition command args = judged (ofArguments command args) := by
  cases command
  -- the commands of a key alone
  case get | incr | decr | persist | ttl | pttl | scard | smembers | zcard =>
    match args, accepts with
    | [key], _ => rfl
  -- the commands of a key and an amount
  case incrby | expire | pexpire =>
    match args, accepts with
    | [key, amount], _ =>
      simp only [byPosition, ofArguments, argument_zero, argument_one, pure_bind, judged_bind_pure]
  case decrby =>
    match args, accepts with
    | [key, amount], _ =>
      simp only [byPosition, ofArguments, argument_zero, argument_one, pure_bind, judged_bind_pure,
        judged_bind]
      congr 2
      funext n
      rw [opposite, checkedNeg_eq]
      cases int64OfInt? (-n.toInt) <;> rfl
  -- the commands of any keys
  case del | exist =>
    match args, accepts with
    | key :: keys, _ => rfl
  case set =>
    match args, accepts with
    | key :: value :: options, _ =>
      simp only [byPosition, ofArguments, argument_zero, argument_one, arguments_two, pure_bind,
        judged_bind_pure]
  case sadd =>
    match args, accepts with
    | key :: member :: members, _ =>
      simp only [byPosition, ofArguments, argument_zero, arguments_one, pure_bind]
      rfl
  case zadd =>
    match args, accepts with
    | key :: score :: member :: rest, _ =>
      have hparity : (score :: member :: rest).length % 2 = rest.length % 2 := by
        simp only [List.length_cons]
        omega
      simp only [byPosition, ofArguments, argument_zero, arguments_one, pure_bind, hparity]
      by_cases heven : rest.length % 2 = 0
      · rw [if_pos heven, if_pos heven, scoredPieces_eq (hparity.trans heven), judged_bind_pure]
      · rw [if_neg heven, if_neg heven]
  case client =>
    match args, accepts with
    | sub :: rest, _ => simp only [byPosition, ofArguments, argument_zero, arguments_one, pure_bind]
  case ping =>
    match args, accepts with
    | [], _ => rfl
    | [message], _ => rfl
  case dbsize | flushall =>
    match args, accepts with
    | [], _ => rfl

end Request

end ScriptStore
