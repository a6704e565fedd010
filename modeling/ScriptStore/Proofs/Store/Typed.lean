import Mathlib
import ScriptStore.Proofs.Keyspace.Bounds
import ScriptStore.Proofs.Store.Refusals

/-!
# Answers with types

Some commands can be asked with typed arguments, and have typed answers. Whoever asks so relies on
the form of the reply: a reply of another form would be an error.

* `Apart` — neither of two texts begins with the other.
* `Store.apart_of_command` — no command is refused with a message that tells of an unexpected reply.
* `Store.Tells` — a typed answer tells what the reply of a command is, and is an error exactly if the
  command has none.
* `replies_have_their_forms` — **commands reply in their forms and with integers that are not too
  small, and so every typed answer tells what its command replies**.
-/

namespace ScriptStore

open Keyspace

variable {clock : Readings} {s : Store} {name : String} {args : List Value} {v : Value} {e : Error}

/-! ## Messages -/

/-- Neither of two texts begins with the other. -/
def Apart (a b : String) : Prop := ¬ a.toList <+: b.toList ∧ ¬ b.toList <+: a.toList

instance (a b : String) : Decidable (Apart a b) := inferInstanceAs (Decidable (_ ∧ _))

/-- Texts that are apart stay so, whatever comes after one of them. -/
theorem Apart.append {a b : String} (h : Apart a b) (more : String) : Apart a (b ++ more) := by
  rw [Apart, String.toList_append]
  constructor
  · intro hbegins
    rcases List.prefix_or_prefix_of_prefix hbegins (List.prefix_append b.toList more.toList) with
      hab | hba
    · exact h.1 hab
    · exact h.2 hba
  · intro hbegins
    exact h.2 ((List.prefix_append b.toList more.toList).trans hbegins)

namespace Store

/-- How a message begins that tells of an unexpected reply. -/
def unexpected : String := "ERR unexpected reply"

end Store

theorem CommandFault.IsRefusal.apart {fault : CommandFault} (h : fault.IsRefusal) :
    Apart Store.unexpected fault.message := by
  cases h with
  | unknown | wrongArity | invalidExpiry | clientArity | unsupportedClient =>
    apply Apart.append
    apply Apart.append
    decide
  | _ => decide

namespace Store

theorem apart_of_invalidArgument (fault : ArgumentFault) :
    Apart unexpected (Error.invalidArgument fault).message := by
  apply Apart.append
  decide

/-- **No command is refused with a message that tells of an unexpected reply.** -/
theorem apart_of_command (h : (s.command clock name args).1 = .error e) :
    Apart unexpected e.message := by
  rw [command] at h
  by_cases hscalars : ∀ v ∈ args, v.isScalar = true
  · obtain ⟨texts, htexts, -⟩ := Value.exists_arguments_of_scalars hscalars
    rw [htexts] at h
    cases isRefusal_of_dispatch h with
    | wrongType => decide
    | command hfault => exact hfault.apart
  · have hother : ∃ v ∈ args, v.isScalar = false := by simpa using hscalars
    obtain ⟨fault, hfault⟩ := Value.exists_fault_of_not_scalar hother
    rw [hfault] at h
    cases h
    exact apart_of_invalidArgument fault

/-! ## Typed answers -/

/-- A typed answer tells what the reply of a command is: the reply is the one that shows what has been
told. The error of a command without a reply is told as it is, and never that a reply is
unexpected. -/
structure Tells {α : Type} (shown : α → Value) (typed : Answer α) (answer : Answer Value) :
    Prop where
  reply : answer.1 = typed.1.map shown
  store : typed.2 = answer.2
  expected : ∀ e, typed.1 = .error e → Apart unexpected e.message

/-- How a text that may be missing is shown. -/
def optional : Option String → Value
  | none => .nil
  | some text => .text text

/-- How a truth value is shown. -/
def flag (b : Bool) : Value := .count b.toNat

/-- An answer tells what a command replies if every reply of the command can be read and is shown by
what is read. -/
theorem tells_through {α : Type} {shown : α → Value} {read : Value → Except Error α}
    (reads : ∀ v, (s.command clock name args).1 = .ok v → ∃ a, read v = .ok a ∧ shown a = v) :
    Tells shown (through (s.command clock name args) read) (s.command clock name args) := by
  have hrefused (e : Error) (h : (s.command clock name args).1 = .error e) :
      Apart unexpected e.message := apart_of_command h
  generalize s.command clock name args = answer at reads hrefused
  obtain ⟨reply, after⟩ := answer
  cases reply with
  | error fault =>
    refine ⟨rfl, rfl, ?_⟩
    rintro _ ⟨⟩
    exact hrefused fault rfl
  | ok v =>
    obtain ⟨a, hread, hshown⟩ := reads v rfl
    have htyped : (through (.ok v, after) read).1 = .ok a := hread
    refine ⟨?_, rfl, ?_⟩
    · rw [htyped, ← hshown]
      rfl
    · intro e he
      rw [htyped] at he
      cases he

/-! ## Readers of replies -/

theorem textReply_of_admits (command : String) (h : ReplyForm.textOrNil.Admits v) :
    ∃ text, textReply command v = .ok text ∧ optional text = v := by
  cases h with
  | nothing => exact ⟨none, rfl, rfl⟩
  | something text => exact ⟨some text, rfl, rfl⟩

theorem integerReply_of_admits (command : String) (h : ReplyForm.integer.Admits v) :
    ∃ n, integerReply command v = .ok n ∧ .integer n = v := by
  cases h with
  | integer n => exact ⟨n, rfl, rfl⟩

/-- What a command replies to values it replies to texts. -/
theorem exists_dispatch_of_command (h : (s.command clock name args).1 = .ok v) :
    ∃ texts, (s.keyspace.dispatch clock name texts).1 = .ok v := by
  rw [command] at h
  cases harguments : Value.arguments args with
  | error fault => simp [harguments] at h
  | ok texts =>
    rw [harguments] at h
    exact ⟨texts, h⟩

theorem admits_of_command {command : Command} (named : Command.ofName? name = some command)
    (h : (s.command clock name args).1 = .ok v) : command.form.Admits v := by
  obtain ⟨texts, hdispatch⟩ := exists_dispatch_of_command h
  obtain ⟨command', hnamed, hform⟩ := exists_form_of_dispatch hdispatch
  cases named.symm.trans hnamed
  exact hform

/-- Setting a deadline replies whether there was a key to set it for. -/
theorem exists_flag_of_expire {s : Keyspace} {key : String} {span : Span}
    (h : (s.expire clock key span).1 = .ok v) : ∃ b, flag b = v := by
  simp only [Keyspace.expire] at h
  split at h
  · cases h
    exact ⟨_, rfl⟩
  · split at h
    · cases h
    · split at h <;> cases h
      · exact ⟨false, rfl⟩
      · exact ⟨true, rfl⟩

theorem exists_flag_of_command (h : (s.command clock "PEXPIRE" args).1 = .ok v) :
    ∃ b, flag b = v := by
  obtain ⟨texts, hdispatch⟩ := exists_dispatch_of_command h
  obtain ⟨command, r, hnamed, hasks, hreply⟩ := exists_asks_of_dispatch hdispatch
  have hpexpire : Command.ofName? "PEXPIRE" = some .pexpire := by decide
  cases hpexpire.symm.trans hnamed
  cases hasks
  exact exists_flag_of_expire hreply

theorem integerReply_flag (command : String) (b : Bool) :
    (integerReply command (flag b)).map (· == 1) = .ok b := by
  cases b <;> rfl

/-! ## Commands with typed answers -/

variable (clock s)

/-- A command whose replies are integers is told by the integer. -/
theorem tells_integer {command : Command} (named : Command.ofName? name = some command)
    (integers : command.form = .integer) (args : List Value) :
    Tells .integer (through (s.command clock name args) (integerReply name))
      (s.command clock name args) := by
  apply tells_through
  intro v hv
  have hform := admits_of_command named hv
  rw [integers] at hform
  exact integerReply_of_admits name hform

/-- A command whose replies are texts or nothing is told by the text. -/
theorem tells_text {command : Command} (named : Command.ofName? name = some command)
    (texts : command.form = .textOrNil) (told : String) (args : List Value) :
    Tells optional (through (s.command clock name args) (textReply told))
      (s.command clock name args) := by
  apply tells_through
  intro v hv
  have hform := admits_of_command named hv
  rw [texts] at hform
  exact textReply_of_admits told hform

theorem tells_pexpire (key : String) (millis : Int64) :
    Tells flag (s.pexpire clock key millis)
      (s.command clock "PEXPIRE" [.text key, .integer millis]) := by
  apply tells_through
  intro v hv
  obtain ⟨b, rfl⟩ := exists_flag_of_command hv
  exact ⟨b, integerReply_flag "PEXPIRE" b, rfl⟩

end Store

open Store in
/-- **Replies have their forms.**

* Whatever the keyspace, the readings of the clocks and the arguments are, a command that succeeds
  replies in its form: a text or nothing, a text, a sequence of texts, or an integer.
* After any run, with clocks that are not set back, an integer is no less than the least of its
  command, as long as the keyspace and the arguments fit into a memory with addresses of 64 bits.
* Each typed answer has a value exactly if its command has a reply, which is the one that shows the
  value. Its error is that of the command and never tells of an unexpected reply. -/
theorem replies_have_their_forms :
    (∀ (s : Keyspace) clock name args v, (s.dispatch clock name args).1 = .ok v →
      ∃ command, Command.ofName? name = some command ∧ command.form.Admits v) ∧
    (∀ (commands : List Issued) (clock : Readings),
      (∀ c ∈ commands, ∀ i, (c.clock i).nanos ≤ (clock 0).nanos) →
      let s := Keyspace.empty.replay commands
      s.Addressable → ∀ name args command least n, args.length < 2 ^ 63 →
        Command.ofName? name = some command → command.least? = some least →
        (s.dispatch clock name args).1 = .ok (.integer n) → least ≤ n.toInt) ∧
    ∀ (s : Store) (clock : Readings) (key : String) (keys : List String) (millis : Int64),
      Tells optional (s.get clock key) (s.command clock "GET" [.text key]) ∧
      Tells .integer (s.del clock keys) (s.command clock "DEL" (keys.map .text)) ∧
      Tells .integer (s.exist clock keys) (s.command clock "EXISTS" (keys.map .text)) ∧
      Tells .integer (s.incr clock key) (s.command clock "INCR" [.text key]) ∧
      Tells flag (s.pexpire clock key millis)
        (s.command clock "PEXPIRE" [.text key, .integer millis]) ∧
      Tells .integer (s.pttl clock key) (s.command clock "PTTL" [.text key]) ∧
      Tells .integer (s.zcard clock key) (s.command clock "ZCARD" [.text key]) ∧
      Tells optional (s.clientName clock) (s.command clock "CLIENT" [.text "GETNAME"]) := by
  refine ⟨fun s clock name args v => exists_form_of_dispatch, ?_, ?_⟩
  · intro commands clock past s addressable name args command least n few named bounded hreply
    have hreportable : ∀ key, s.Reportable (clock 0) key := reportable_replay past
    exact least_le_of_dispatch few addressable hreportable named bounded hreply
  · intro s clock key keys millis
    have get : Command.ofName? "GET" = some .get := by decide
    have del : Command.ofName? "DEL" = some .del := by decide
    have exist : Command.ofName? "EXISTS" = some .exist := by decide
    have incr : Command.ofName? "INCR" = some .incr := by decide
    have pttl : Command.ofName? "PTTL" = some .pttl := by decide
    have zcard : Command.ofName? "ZCARD" = some .zcard := by decide
    have client : Command.ofName? "CLIENT" = some .client := by decide
    refine ⟨?_, ?_, ?_, ?_, tells_pexpire clock s key millis, ?_, ?_, ?_⟩
    · exact tells_text clock s get rfl "GET" [.text key]
    · exact tells_integer clock s del rfl (keys.map .text)
    · exact tells_integer clock s exist rfl (keys.map .text)
    · exact tells_integer clock s incr rfl [.text key]
    · exact tells_integer clock s pttl rfl [.text key]
    · exact tells_integer clock s zcard rfl [.text key]
    · exact tells_text clock s client rfl "CLIENT GETNAME" [.text "GETNAME"]

/-- A counter. -/
def counterStore : Store :=
  { Store.new with keyspace := Keyspace.empty.insert "n" (.lasting (.string "41")) }

/-- The reply for a key that has gone is the least there is, and a typed counter tells its number. -/
theorem replies_have_their_forms_of_lease :
    let commands : List Issued := [⟨.frozen ⟨0, 0⟩, "SET", ["k", "v", "PX", "2600"]⟩]
    let clock := Readings.frozen ⟨2600000000, 0⟩
    (∃ n, ((Keyspace.empty.replay commands).dispatch clock "pttl" ["k"]).1 = .ok (.integer n) ∧
        -2 ≤ n.toInt) ∧
      (counterStore.command clock "INCR" [.text "n"]).1 =
        (counterStore.incr clock "n").1.map .integer := by
  intro commands clock
  obtain ⟨-, bounds, typed⟩ := replies_have_their_forms
  have hreply : ((Keyspace.empty.replay commands).dispatch clock "pttl" ["k"]).1 =
      .ok (.integer (-2)) := by cbv
  have past : ∀ c ∈ commands, ∀ i, (c.clock i).nanos ≤ (clock 0).nanos := by
    simp [commands, clock, Readings.frozen]
  have addressable : (Keyspace.empty.replay commands).Addressable := by
    have hreplay : Keyspace.empty.replay commands =
        Keyspace.empty.insert "k" ⟨.string "v", some 2600000000⟩ := by cbv
    rw [hreplay]
    refine ⟨by decide, ?_⟩
    intro key e he
    rw [entries_insert] at he
    split at he
    · cases he
      decide
    · simp [Keyspace.empty] at he
  refine ⟨⟨-2, hreply, ?_⟩, ?_⟩
  · exact bounds commands clock past addressable "pttl" ["k"] .pttl (-2) (-2) (by decide)
      (by decide) rfl hreply
  · exact (typed counterStore clock "n" [] 0).2.2.2.1.reply

end ScriptStore
