import ScriptStore.Error

/-!
# Commands

* `Command` — the built-in commands; `Command.ofName?` finds one by its name in any case.
* `Arity` — how many arguments a command takes; `Arity.accepts` says whether a count is right.

This is the table of `lookup` with `Arity`.
-/

namespace ScriptStore

/-- How many arguments a command takes, its name not counted. -/
inductive Arity where
  | exactly (n : Nat)
  | atLeast (least : Nat)
  | between (least most : Nat)
  deriving DecidableEq, Repr

def Arity.accepts : Arity → Nat → Bool
  | exactly n, count => count = n
  | atLeast least, count => least ≤ count
  | between least most, count => least ≤ count && count ≤ most

inductive Command where
  | ping | get | set | del | exist
  | incr | decr | incrby | decrby
  | expire | pexpire | persist | ttl | pttl
  | sadd | scard | smembers | zadd | zcard
  | client | dbsize | flushall
  deriving DecidableEq, Repr

namespace Command

def all : List Command :=
  [ping, get, set, del, exist, incr, decr, incrby, decrby, expire, pexpire, persist, ttl, pttl,
    sadd, scard, smembers, zadd, zcard, client, dbsize, flushall]

def name : Command → String
  | ping => "PING"
  | get => "GET"
  | set => "SET"
  | del => "DEL"
  | exist => "EXISTS"
  | incr => "INCR"
  | decr => "DECR"
  | incrby => "INCRBY"
  | decrby => "DECRBY"
  | expire => "EXPIRE"
  | pexpire => "PEXPIRE"
  | persist => "PERSIST"
  | ttl => "TTL"
  | pttl => "PTTL"
  | sadd => "SADD"
  | scard => "SCARD"
  | smembers => "SMEMBERS"
  | zadd => "ZADD"
  | zcard => "ZCARD"
  | client => "CLIENT"
  | dbsize => "DBSIZE"
  | flushall => "FLUSHALL"

def arity : Command → Arity
  | ping => .between 0 1
  | get | incr | decr | persist | ttl | pttl | scard | smembers | zcard => .exactly 1
  | incrby | decrby | expire | pexpire => .exactly 2
  | set | sadd => .atLeast 2
  | del | exist | client => .atLeast 1
  | zadd => .atLeast 3
  | dbsize | flushall => .exactly 0

/-- The command of a name, whatever the case of its ASCII letters. -/
def ofName? (s : String) : Option Command :=
  let upper := asciiUpper s
  all.find? fun c => c.name = upper

end Command

end ScriptStore
