import Std.Data.TreeMap
import Std.Data.TreeSet
import ScriptStore.Error

/-!
# The keyspace

Keys are bound to strings, sets and sorted sets, each perhaps with a deadline. An entry whose
deadline has been reached is as good as absent; it stays in place until an operation looks its
key up.

* `Moment`, `Readings` — what the clocks show, and what they show at the successive readings that
  one command takes.
* `Data`, `Entry`, `Keyspace` — the state.
* `Keyspace.lookup` — the live entry of a key; an expired one is dropped on the way.
* `Keyspace.remove`, `Keyspace.insert`, `Keyspace.liveCount` — the other operations.
* `Keyspace.live?` — what a moment shows of a key, without touching anything.

These are `Data`, `Entry` and `Db`: `is_expired`, `entry`, `contains`, `remove` and `live_len`.
-/

namespace ScriptStore

/-- What the clocks show: nanoseconds on a clock that never goes back, and milliseconds of the
calendar since 1970. -/
structure Moment where
  nanos : Nat
  unixMillis : Nat
  deriving DecidableEq, Repr

/-- The successive readings of the clocks during one command, from 0 on. -/
abbrev Readings := Nat → Moment

/-- The clocks of a command that runs at one instant. -/
def Readings.frozen (now : Moment) : Readings := fun _ => now

inductive Data where
  | string (text : String)
  | set (members : Std.TreeSet String)
  | sortedSet (scores : Std.TreeMap String Float)

/-- A key's data, and the nanosecond at which it expires, if it does. -/
structure Entry where
  data : Data
  deadline : Option Nat

def Entry.lasting (data : Data) : Entry := ⟨data, none⟩

def Entry.expired (e : Entry) (now : Moment) : Bool :=
  match e.deadline with
  | none => false
  | some d => d ≤ now.nanos

/-- The store's data, and the name that its client has given itself. -/
structure Keyspace where
  entries : Std.TreeMap String Entry
  clientName : Option String

namespace Keyspace

def empty : Keyspace := ⟨∅, none⟩

/-- The entry that a moment shows under a key. -/
def live? (s : Keyspace) (now : Moment) (key : String) : Option Entry :=
  s.entries[key]?.filter fun e => !e.expired now

/-- The live entry of a key. An expired one is dropped. -/
def lookup (s : Keyspace) (now : Moment) (key : String) : Option Entry × Keyspace :=
  match s.entries[key]? with
  | none => (none, s)
  | some e =>
    if e.expired now then (none, { s with entries := s.entries.erase key }) else (some e, s)

def insert (s : Keyspace) (key : String) (e : Entry) : Keyspace :=
  { s with entries := s.entries.insert key e }

/-- The keyspace without a key, and whether the key was live. -/
def remove (s : Keyspace) (now : Moment) (key : String) : Bool × Keyspace :=
  let (found, s) := s.lookup now key
  (found.isSome, { s with entries := s.entries.erase key })

def liveCount (s : Keyspace) (now : Moment) : Nat :=
  (s.entries.toList.filter fun binding => !binding.2.expired now).length

end Keyspace

end ScriptStore
