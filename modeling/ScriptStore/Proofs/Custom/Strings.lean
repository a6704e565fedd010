import Mathlib
import ScriptStore.Proofs.Custom.Ways
import ScriptStore.Proofs.Keyspace.Addition
import ScriptStore.Proofs.Text.Subparts

/-!
# Strings that leave scripts

A string of a script is bytes, and one of the store is a text. Bytes that are no UTF-8 become a text
with other bytes, so a script that writes them to the store reads others there. This happens once
only: what a script has read it may write and read as often as it likes.

* `Invocation.Stores` — a script that binds a key to a value reads such a value there.
* `Invocation.stores` — it reads the text that the value has as an argument.
* `strings_settle` — **all ways out of a script take a string to the same text, and writing and
  reading it once makes it UTF-8, which stays as it is**.
-/

namespace ScriptStore

open Script

variable {clock : Readings} {access : StoreAccess} {args : List Val} {key v : Val}

/-! ## Writing and reading -/

/-- What a script asks for is the command of the texts of its arguments. -/
theorem Custom.ask_eq_dispatch {name : String} {texts : List String}
    (h : args.map Val.toArgument = (name :: texts).map .ok) (s : Keyspace) :
    ask clock s access args = s.dispatch clock name texts := by
  rw [ask, commandOf_eq_ok_iff.mpr h]

namespace Invocation

/-- A script that binds the key to `written` at this point is told so, and whenever it reads the key
in the keyspace that it has left, it is given `read`. -/
def Stores (i : Invocation) (key written read : Val) : Prop :=
  ∀ (access : StoreAccess) (clock : Readings),
    let stored := i.through access clock [.ofString "SET", key, written]
    stored.machine.control = .give [.ofString "OK"] ∧
      ∀ (j : Invocation) (way : StoreAccess) (later : Readings), j.keyspace = stored.keyspace →
        (j.through way later [.ofString "GET", key]).machine.control = .give [read]

/-- A script that is replied a text goes on with it as a string. -/
theorem control_of_text {i : Invocation} {text : String}
    (h : (Custom.ask clock i.keyspace access args).1 = .ok (.text text)) :
    (i.through access clock args).machine.control = .give [.ofString text] := by
  rw [through_eq, h]
  rfl

/-- **A script reads the text of what it has written.** -/
theorem stores {name text : String} (hkey : key.toArgument = .ok name)
    (hv : v.toArgument = .ok text) (i : Invocation) : i.Stores key v (.ofString text) := by
  intro access clock stored
  have hset : Custom.ask clock i.keyspace access [.ofString "SET", key, v] =
      (.ok .ok, i.keyspace.insert name (.lasting (.string text))) := by
    have hargs : [.ofString "SET", key, v].map Val.toArgument = ["SET", name, text].map .ok := by
      simp [toArgument_ofString, hkey, hv]
    rw [Custom.ask_eq_dispatch hargs]
    rfl
  have hkeyspace : stored.keyspace = i.keyspace.insert name (.lasting (.string text)) := by
    show (i.through access clock _).keyspace = _
    rw [through_eq, hset]
  refine ⟨control_of_text (by rw [hset]; rfl), fun j way later kept => control_of_text ?_⟩
  have hargs : [.ofString "GET", key].map Val.toArgument = ["GET", name].map .ok := by
    simp [toArgument_ofString, hkey]
  have hlive := Keyspace.live?_insert_self (later 0) i.keyspace name (.string text)
  have hread : (j.keyspace.lookup (later 0) name).1 = some (.lasting (.string text)) := by
    rw [kept, hkeyspace, Keyspace.lookup_fst, hlive]
  rw [Custom.ask_eq_dispatch hargs]
  show Data.stringReply ((j.keyspace.lookup (later 0) name).1.map Entry.data) = _
  rw [hread]
  rfl

end Invocation

/-! ## Strings -/

/-- **Strings settle once they have been in the store.** A string is the same text as a reply, at
whatever depth, as an argument, and as the name of a field: its characters, and a replacement for
each maximal subpart that is none, in order and without a gap. If it is UTF-8 this text has the same
bytes; in any case a script that writes the string reads one that is UTF-8, and reads that again if
it writes that. -/
theorem strings_settle (b : Bytes) :
    let text := Utf8.decode b
    (∀ h depth, (Val.str b).toReplyWithin h depth = .ok (.text text)) ∧
    (Val.str b).toArgument = .ok text ∧
    (Key.str b).fieldName? = some text ∧
    (b.toByteArray.IsValidUTF8 → bytes text = b) ∧
    (∃ u : Bytes, u.toByteArray.IsValidUTF8 ∧ Utf8.decode u = text ∧
      ∀ (i : Invocation) (key : Val), key.IsTextual →
        i.Stores key (.str b) (.str u) ∧ i.Stores key (.str u) (.str u)) ∧
    (∃! parts, Utf8.Splits b parts) ∧
    ∀ parts, Utf8.Splits b parts → parts.flatMap Utf8.Part.bytes = b ∧
      text = String.ofList (parts.map Utf8.Part.read) := by
  intro text
  have hutf8 : (bytes text).toByteArray.IsValidUTF8 := Utf8.isValidUTF8_iff.mpr ⟨text, rfl⟩
  have hagain : Utf8.decode (bytes text) = text := Utf8.decode_encode text
  obtain ⟨parts, hparts⟩ := Utf8.exists_splits b
  refine ⟨fun h depth => by cases depth <;> rfl, rfl, rfl, Utf8.encode_decode_eq_iff.mpr,
    ⟨bytes text, hutf8, hagain, fun i key textual => ?_⟩,
    ⟨parts, hparts, fun _ h => h.unique hparts⟩, fun parts h => ⟨h.flatMap_bytes, h.decode_eq⟩⟩
  obtain ⟨name, hname⟩ := key.isTextual_iff.mp textual
  exact ⟨i.stores hname rfl, i.stores hname (toArgument_ofString text)⟩

/-- A string in which a character breaks off after two of its three bytes: these become one
replacement, and then the string has settled. -/
theorem strings_settle_truncated :
    let b : Bytes := [0x61, 0xE2, 0x82, 0x62]
    let u : Bytes := [0x61, 0xEF, 0xBF, 0xBD, 0x62]
    let start : Invocation := .start .default 0 .empty ⟨[]⟩ .initial [] []
    start.Stores (.ofString "k") (.str b) (.str u) ∧
      start.Stores (.ofString "k") (.str u) (.str u) ∧
      ∃ parts, Utf8.Splits b parts ∧ parts.map Utf8.Part.read = ['a', Utf8.replacement, 'b'] := by
  intro b u start
  obtain ⟨-, -, -, -, ⟨settled, hutf8, hsame, hstores⟩, ⟨parts, hparts, -⟩, hread⟩ :=
    strings_settle b
  have hsettled : settled = u := by
    rw [← Utf8.encode_decode_eq_iff.mpr hutf8, hsame]
    decide
  have hchars : parts.map Utf8.Part.read = (Utf8.decode b).toList := by
    rw [(hread parts hparts).2, String.toList_ofList]
  obtain ⟨hfirst, hagain⟩ := hstores start (.ofString "k") (.inl rfl)
  rw [hsettled] at hfirst hagain
  exact ⟨hfirst, hagain, parts, hparts, hchars.trans (by decide)⟩

end ScriptStore
