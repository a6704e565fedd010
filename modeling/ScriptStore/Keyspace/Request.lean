import ScriptStore.Keyspace.Command
import ScriptStore.Number.Reading

/-!
# Requests

A request is a command with arguments that have been understood. Everything about the arguments
that can be judged without the keyspace is judged here, so a request that fails to be read leaves
the keyspace alone.

* `Request` — what the keyspace can be asked to do.
* `Request.ofArguments` — the request that a command's arguments make, or what is wrong with them.
* `Request.ofCall` — the same from the command's name.

This is what the handlers do with their arguments, with `parse_int` and `parse_float`.
-/

namespace ScriptStore

inductive TimeUnit where
  | seconds
  | millis
  deriving DecidableEq, Repr

def TimeUnit.inMillis : TimeUnit → Int
  | seconds => 1000
  | millis => 1

/-- An amount of time as written. -/
structure Span where
  amount : Int64
  unit : TimeUnit
  deriving DecidableEq

/-- A span in milliseconds, without bound. -/
def Span.inMillis (s : Span) : Int := s.amount.toInt * s.unit.inMillis

inductive Request where
  | ping (message : Option String)
  | get (key : String)
  | set (key value : String) (expiry : Option Span)
  | del (keys : List String)
  | exist (keys : List String)
  | increase (key : String) (delta : Int64)
  | expire (key : String) (span : Span)
  | persist (key : String)
  | remaining (key : String) (unit : TimeUnit)
  | setAdd (key : String) (members : List String)
  | setSize (key : String)
  | setMembers (key : String)
  | sortedAdd (key : String) (pairs : List (Float × String))
  | sortedSize (key : String)
  | setClientName (name : String)
  | clientName
  | size
  | clear

namespace Request

def integerArgument (s : String) : Except CommandFault Int64 :=
  match readInt64? s with
  | some n => .ok n
  | none => .error .notAnInteger

/-- An argument that is a score: any number but the one that is none. -/
def scoreArgument (s : String) : Except CommandFault Float :=
  match readFloat? s with
  | some f => if f == f then .ok f else .error .notAFloat
  | none => .error .notAFloat

/-- The options after the key and value of `SET`: a unit and a positive amount. -/
def expiryOptions : List String → Except CommandFault (Option Span)
  | [] => .ok none
  | [unit, amount] => do
    let amount ← integerArgument amount
    if amount ≤ 0 then .error (.invalidExpiry "set")
    else if asciiUpper unit = "EX" then .ok (some ⟨amount, .seconds⟩)
    else if asciiUpper unit = "PX" then .ok (some ⟨amount, .millis⟩)
    else .error .malformed
  | _ => .error .malformed

/-- Scores and members in turn. -/
def scoredMembers : List String → Except CommandFault (List (Float × String))
  | [] => .ok []
  | score :: member :: rest => do
    let score ← scoreArgument score
    let rest ← scoredMembers rest
    return (score, member) :: rest
  | [_] => .error .malformed

def clientArguments (sub : String) (rest : List String) : Except CommandFault Request :=
  let lower := asciiLower sub
  if lower = "setname" then
    match rest with
    | [name] => if name.toList.contains ' ' then .error .invalidClientName
                else .ok (.setClientName name)
    | _ => .error (.clientArity lower)
  else if lower = "getname" then
    match rest with
    | [] => .ok .clientName
    | _ => .error (.clientArity lower)
  else .error (.unsupportedClient sub)

/-- The request that a command's arguments make. Only a count that the command's arity refuses
ends in the last case. -/
def ofArguments : Command → List String → Except CommandFault Request
  | .ping, [] => .ok (.ping none)
  | .ping, [message] => .ok (.ping (some message))
  | .get, [key] => .ok (.get key)
  | .set, key :: value :: options => do
    let expiry ← expiryOptions options
    return .set key value expiry
  | .del, key :: keys => .ok (.del (key :: keys))
  | .exist, key :: keys => .ok (.exist (key :: keys))
  | .incr, [key] => .ok (.increase key 1)
  | .decr, [key] => .ok (.increase key (-1))
  | .incrby, [key, delta] => do
    let delta ← integerArgument delta
    return .increase key delta
  | .decrby, [key, delta] => do
    let delta ← integerArgument delta
    match int64OfInt? (-delta.toInt) with
    | some delta => return .increase key delta
    | none => .error .decrementOverflow
  | .expire, [key, amount] => do
    let amount ← integerArgument amount
    return .expire key ⟨amount, .seconds⟩
  | .pexpire, [key, amount] => do
    let amount ← integerArgument amount
    return .expire key ⟨amount, .millis⟩
  | .persist, [key] => .ok (.persist key)
  | .ttl, [key] => .ok (.remaining key .seconds)
  | .pttl, [key] => .ok (.remaining key .millis)
  | .sadd, key :: member :: members => .ok (.setAdd key (member :: members))
  | .scard, [key] => .ok (.setSize key)
  | .smembers, [key] => .ok (.setMembers key)
  | .zadd, key :: score :: member :: pairs =>
    if pairs.length % 2 = 0 then do
      let pairs ← scoredMembers (score :: member :: pairs)
      return .sortedAdd key pairs
    else .error .malformed
  | .zcard, [key] => .ok (.sortedSize key)
  | .client, sub :: rest => clientArguments sub rest
  | .dbsize, [] => .ok .size
  | .flushall, [] => .ok .clear
  | command, _ => .error (.wrongArity command.name)

/-- The request of a call. An unknown name is refused first, then a wrong count of arguments,
then arguments that make no request. -/
def ofCall (name : String) (args : List String) : Except CommandFault Request :=
  match Command.ofName? name with
  | none => .error (.unknown name)
  | some command =>
    if command.arity.accepts args.length then ofArguments command args
    else .error (.wrongArity name)

end Request

end ScriptStore
