import ScriptStore.Keyspace.Basic
import ScriptStore.Keyspace.Request
import ScriptStore.Value.Basic

/-!
# Running commands

A command reads the clocks each time it looks a key up or sets a deadline, so a running request
takes the readings of `Readings` in turn: the first is `clock 0`.

* `Request.run` — what a request does to the keyspace, and its reply.
* `Keyspace.dispatch` — one command by name.

These are `dispatch` and what the handlers do behind their arguments: `set`, `del`, `exists`,
`incr_by`, `deadline`, `expire_in`, `persist`, `remaining`, `sadd`, `zadd`, `client` and the rest.
-/

namespace ScriptStore

/-- A reply and the keyspace after it. -/
abbrev Outcome := Except Error Value × Keyspace

/-- The reply of commands that have nothing to tell. -/
def Value.ok : Value := .text "OK"

def Value.count (n : Nat) : Value := .integer (Int64.ofNat n)

/-- The deadline that a positive span from now on gives, unless it lies past the last millisecond
of the calendar. -/
def Span.deadline? (span : Span) (now : Moment) : Option Nat :=
  if span.inMillis + now.unixMillis ≤ 2 ^ 63 - 1 then
    some (now.nanos + span.inMillis.toNat * 1000000)
  else none

namespace Keyspace

/-- Removes keys one by one, the first at the reading `i`, and counts those that were live. -/
def removeAll (clock : Readings) (s : Keyspace) (i : Nat) : List String → Nat × Keyspace
  | [] => (0, s)
  | key :: keys =>
    let (live, s) := s.remove (clock i) key
    let (n, s) := removeAll clock s (i + 1) keys
    (live.toNat + n, s)

/-- Looks keys up one by one, the first at the reading `i`, and counts those that are live; a
repeated key counts again. -/
def countLive (clock : Readings) (s : Keyspace) (i : Nat) : List String → Nat × Keyspace
  | [] => (0, s)
  | key :: keys =>
    let (found, s) := s.lookup (clock i) key
    let (n, s) := countLive clock s (i + 1) keys
    (found.isSome.toNat + n, s)

/-- The number that a counter holds; an absent one holds 0. -/
def counter : Option Entry → Except Error Int64
  | none => .ok 0
  | some ⟨.string text, _⟩ =>
    match readInt64? text with
    | some n => .ok n
    | none => .error (.command .notAnInteger)
  | some _ => .error .wrongType

/-- Adds to a counter. The sum replaces the data and leaves the deadline. -/
def increase (clock : Readings) (s : Keyspace) (key : String) (delta : Int64) : Outcome :=
  let (found, s) := s.lookup (clock 0) key
  match counter found with
  | .error e => (.error e, s)
  | .ok current =>
    match int64OfInt? (current.toInt + delta.toInt) with
    | none => (.error (.command .overflow), s)
    | some sum =>
      let data := Data.string (int64Text sum)
      -- the key may have expired since its number was read: then the sum has no deadline
      match s.lookup (clock 1) key with
      | (some e, s) => (.ok (.integer sum), s.insert key { e with data })
      | (none, s) => (.ok (.integer sum), s.insert key (.lasting data))

def expireName : TimeUnit → String
  | .seconds => "expire"
  | .millis => "pexpire"

/-- Sets the deadline of a live key. A span that is not positive removes the key instead. -/
def expire (clock : Readings) (s : Keyspace) (key : String) (span : Span) : Outcome :=
  if span.amount ≤ 0 then
    let (live, s) := s.remove (clock 0) key
    (.ok (.count live.toNat), s)
  else
    match span.deadline? (clock 0) with
    | none => (.error (.command (.invalidExpiry (expireName span.unit))), s)
    | some deadline =>
      match s.lookup (clock 1) key with
      | (none, s) => (.ok (.count 0), s)
      | (some e, s) => (.ok (.count 1), s.insert key { e with deadline := some deadline })

def setString (clock : Readings) (s : Keyspace) (key value : String) (expiry : Option Span) :
    Outcome :=
  match expiry with
  | none => (.ok .ok, s.insert key (.lasting (.string value)))
  | some span =>
    match span.deadline? (clock 0) with
    | none => (.error (.command (.invalidExpiry "set")), s)
    | some deadline => (.ok .ok, s.insert key ⟨.string value, some deadline⟩)

/-- Takes the deadline from a live key that has one. -/
def persist (clock : Readings) (s : Keyspace) (key : String) : Outcome :=
  match s.lookup (clock 0) key with
  | (some ⟨data, some _⟩, s) => (.ok (.count 1), s.insert key (.lasting data))
  | (_, s) => (.ok (.count 0), s)

/-- Whole milliseconds in a unit: seconds are rounded to the nearest, a half going up. -/
def inUnit (millis : Int) : TimeUnit → Int
  | .millis => millis
  -- the addition saturates
  | .seconds => min (millis + 500) (2 ^ 63 - 1) / 1000

/-- The time that a key has left, -1 for one that does not expire and -2 for one that is not
there. -/
def remaining (clock : Readings) (s : Keyspace) (key : String) (unit : TimeUnit) : Outcome :=
  match s.lookup (clock 1) key with
  | (none, s) => (.ok (.integer (-2)), s)
  | (some ⟨_, none⟩, s) => (.ok (.integer (-1)), s)
  | (some ⟨_, some deadline⟩, s) =>
    -- measured from the reading before the one that finds the key
    let millis := Int64.ofNat ((deadline - (clock 0).nanos) / 1000000)
    (.ok (.integer (Int64.ofInt (inUnit millis.toInt unit))), s)

/-- The keyspace with a key that holds at least the given data. -/
def ensure (s : Keyspace) (now : Moment) (key : String) (data : Data) : Keyspace :=
  match s.lookup now key with
  | (some _, s) => s
  | (none, s) => s.insert key (.lasting data)

/-- Adds members to a set and counts the new ones. -/
def setAdd (clock : Readings) (s : Keyspace) (key : String) (members : List String) : Outcome :=
  match (s.ensure (clock 0) key (.set ∅)).lookup (clock 1) key with
  | (some ⟨.set old, deadline⟩, s) =>
    let new := old.insertMany members
    (.ok (.count (new.size - old.size)), s.insert key ⟨.set new, deadline⟩)
  -- another kind of data, or a key that has expired between the two readings
  | (_, s) => (.error .wrongType, s)

/-- Gives members of a sorted set their scores and counts the new members. -/
def sortedAdd (clock : Readings) (s : Keyspace) (key : String) (pairs : List (Float × String)) :
    Outcome :=
  match (s.ensure (clock 0) key (.sortedSet ∅)).lookup (clock 1) key with
  | (some ⟨.sortedSet old, deadline⟩, s) =>
    let new := old.insertMany (pairs.map fun pair => (pair.2, pair.1))
    (.ok (.count (new.size - old.size)), s.insert key ⟨.sortedSet new, deadline⟩)
  | (_, s) => (.error .wrongType, s)

/-- The reply of a command that reads a key, from what the key holds. -/
def read (clock : Readings) (s : Keyspace) (key : String)
    (reply : Option Data → Except Error Value) : Outcome :=
  let (found, s) := s.lookup (clock 0) key
  (reply (found.map Entry.data), s)

end Keyspace

/-! ## Replies of reading commands -/

def Data.stringReply : Option Data → Except Error Value
  | none => .ok .nil
  | some (.string text) => .ok (.text text)
  | some _ => .error .wrongType

def Data.setSizeReply : Option Data → Except Error Value
  | none => .ok (.count 0)
  | some (.set members) => .ok (.count members.size)
  | some _ => .error .wrongType

/-- The members of a set in order. -/
def Data.membersReply : Option Data → Except Error Value
  | none => .ok (.sequence [])
  | some (.set members) => .ok (.sequence (members.toList.map .text))
  | some _ => .error .wrongType

def Data.sortedSizeReply : Option Data → Except Error Value
  | none => .ok (.count 0)
  | some (.sortedSet scores) => .ok (.count scores.size)
  | some _ => .error .wrongType

/-! ## Dispatch -/

open Keyspace in
def Request.run (clock : Readings) (s : Keyspace) : Request → Outcome
  | .ping none => (.ok (.text "PONG"), s)
  | .ping (some message) => (.ok (.text message), s)
  | .get key => s.read clock key Data.stringReply
  | .set key value expiry => setString clock s key value expiry
  | .del keys =>
    let (n, s) := removeAll clock s 0 keys
    (.ok (.count n), s)
  | .exist keys =>
    let (n, s) := countLive clock s 0 keys
    (.ok (.count n), s)
  | .increase key delta => Keyspace.increase clock s key delta
  | .expire key span => Keyspace.expire clock s key span
  | .persist key => Keyspace.persist clock s key
  | .remaining key unit => Keyspace.remaining clock s key unit
  | .setAdd key members => Keyspace.setAdd clock s key members
  | .setSize key => s.read clock key Data.setSizeReply
  | .setMembers key => s.read clock key Data.membersReply
  | .sortedAdd key pairs => Keyspace.sortedAdd clock s key pairs
  | .sortedSize key => s.read clock key Data.sortedSizeReply
  | .setClientName name => (.ok .ok, { s with clientName := some name })
  | .clientName => (.ok (s.clientName.elim .nil .text), s)
  | .size => (.ok (.count (s.liveCount (clock 0))), s)
  | .clear => (.ok .ok, { s with entries := ∅ })

def Keyspace.dispatch (clock : Readings) (s : Keyspace) (name : String) (args : List String) :
    Outcome :=
  match Request.ofCall name args with
  | .error fault => (.error (.command fault), s)
  | .ok request => request.run clock s

end ScriptStore
