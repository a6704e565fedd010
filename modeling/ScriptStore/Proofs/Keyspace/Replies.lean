import ScriptStore.Keyspace.Dispatch
import ScriptStore.Proofs.Keyspace.Arguments

/-!
# What commands answer

Commands have few kinds of replies: nothing, a text, an integer, or a sequence of texts. Which of
them a reply is hangs on the command alone. The reasons for which commands are refused are few, too.

* `Value.IsReply`, `Error.IsRefusal` — the values that commands reply with, and the errors that
  refuse them.
* `ReplyForm`, `ReplyForm.Admits` — the forms that replies have, and the values of a form.
* `Command.form` — the form of a command's replies.
* `Outcome.Answers` — an outcome is a reply of a form, or a refusal.
* `Keyspace.exists_form_of_dispatch` — **a command replies in its form**, and so with nothing else
  than such a value (`Keyspace.isReply_dispatch`).
* `Keyspace.isRefusal_of_dispatch` — **a command that has no reply is refused for such a reason**.
-/

namespace ScriptStore

open Keyspace

variable {clock : Readings} {s : Keyspace} {key name : String} {args : List String} {v : Value}
  {command : Command} {r : Request} {e : Error}

/-! ## Answers -/

/-- A value of one of the kinds that commands reply with. -/
inductive Value.IsReply : Value → Prop where
  | nil : IsReply .nil
  | text (text : String) : IsReply (.text text)
  | integer (n : Int64) : IsReply (.integer n)
  | texts (texts : List String) : IsReply (.sequence (texts.map .text))

/-- A fault for which a command is refused. -/
inductive CommandFault.IsRefusal : CommandFault → Prop where
  | unknown (name : String) : IsRefusal (.unknown name)
  | wrongArity (name : String) : IsRefusal (.wrongArity name)
  | malformed : IsRefusal .malformed
  | notAnInteger : IsRefusal .notAnInteger
  | notAFloat : IsRefusal .notAFloat
  | overflow : IsRefusal .overflow
  | decrementOverflow : IsRefusal .decrementOverflow
  | invalidExpiry (command : String) : IsRefusal (.invalidExpiry command)
  | invalidClientName : IsRefusal .invalidClientName
  | clientArity (subcommand : String) : IsRefusal (.clientArity subcommand)
  | unsupportedClient (subcommand : String) : IsRefusal (.unsupportedClient subcommand)

/-- An error that refuses a command. -/
inductive Error.IsRefusal : Error → Prop where
  | wrongType : IsRefusal .wrongType
  | command {fault : CommandFault} (h : fault.IsRefusal) : IsRefusal (.command fault)

/-! ## Arguments that are refused -/

namespace Request

/-- Arguments are read, or refused for one of the reasons to refuse a command. -/
def Refuses {α : Type} (read : Except CommandFault α) : Prop :=
  ∀ fault, read = .error fault → fault.IsRefusal

namespace Refuses

variable {α β : Type}

theorem ok (a : α) : Refuses (.ok a) := by
  rintro fault ⟨⟩

theorem error {fault : CommandFault} (h : fault.IsRefusal) :
    Refuses (.error fault : Except CommandFault α) := by
  rintro _ ⟨⟩
  exact h

theorem bind {x : Except CommandFault α} {f : α → Except CommandFault β} (h : Refuses x)
    (hf : ∀ a, Refuses (f a)) : Refuses (x >>= f) := by
  cases x with
  | error fault => exact error (h fault rfl)
  | ok a => exact hf a

theorem integerArgument (text : String) : Refuses (integerArgument text) := by
  unfold Request.integerArgument
  split
  · exact ok _
  · exact error .notAnInteger

theorem scoreArgument (text : String) : Refuses (scoreArgument text) := by
  unfold Request.scoreArgument
  split
  · split
    · exact ok _
    · exact error .notAFloat
  · exact error .notAFloat

theorem expiryOptions (options : List String) : Refuses (expiryOptions options) := by
  unfold Request.expiryOptions
  split
  · exact ok _
  · rename_i unit amount
    apply bind (integerArgument amount)
    intro amount
    split
    · exact error (.invalidExpiry _)
    · split
      · exact ok _
      · split
        · exact ok _
        · exact error .malformed
  · exact error .malformed

theorem scoredMembers (args : List String) : Refuses (scoredMembers args) := by
  induction args using Request.scoredMembers.induct with
  | case1 => exact ok _
  | case2 score member rest ih =>
    exact bind (scoreArgument score) fun _ => bind ih fun _ => ok _
  | case3 => exact error .malformed

theorem clientArguments (sub : String) (rest : List String) :
    Refuses (clientArguments sub rest) := by
  unfold Request.clientArguments
  simp only
  split
  · split
    · split
      · exact error .invalidClientName
      · exact ok _
    · exact error (.clientArity _)
  · split
    · split
      · exact ok _
      · exact error (.clientArity _)
    · exact error (.unsupportedClient _)

theorem ofArguments (command : Command) (args : List String) :
    Refuses (ofArguments command args) := by
  unfold Request.ofArguments
  split
  case h_4 key value options => exact bind (expiryOptions options) fun _ => ok _
  -- the commands that read one number
  case h_9 key amount | h_11 key amount | h_12 key amount =>
    exact bind (integerArgument amount) fun _ => ok _
  case h_10 key amount =>
    apply bind (integerArgument amount)
    intro n
    split
    · exact ok _
    · exact error .decrementOverflow
  case h_19 key score member rest =>
    split
    · exact bind (scoredMembers (score :: member :: rest)) fun _ => ok _
    · exact error .malformed
  case h_21 sub rest => exact clientArguments sub rest
  case h_24 => exact error (.wrongArity _)
  all_goals exact ok _

/-- **A call makes a request, or is refused for one of the reasons.** -/
theorem ofCall (name : String) (args : List String) : Refuses (ofCall name args) := by
  unfold Request.ofCall
  split
  · exact error (.unknown name)
  · split
    · exact ofArguments _ args
    · exact error (.wrongArity name)

end Refuses

end Request

/-! ## Forms -/

/-- A form of replies. -/
inductive ReplyForm where
  | text
  | textOrNil
  | texts
  | integer
  deriving DecidableEq, Repr

/-- The values of a form. -/
inductive ReplyForm.Admits : ReplyForm → Value → Prop where
  | text (text : String) : Admits .text (.text text)
  | nothing : Admits .textOrNil .nil
  | something (text : String) : Admits .textOrNil (.text text)
  | texts (texts : List String) : Admits .texts (.sequence (texts.map .text))
  | integer (n : Int64) : Admits .integer (.integer n)

theorem ReplyForm.Admits.isReply {form : ReplyForm} (h : form.Admits v) : v.IsReply := by
  cases h with
  | text text | something text => exact .text text
  | nothing => exact .nil
  | texts texts => exact .texts texts
  | integer n => exact .integer n

/-- The form of a command's replies. -/
def Command.form : Command → ReplyForm
  | .ping | .set | .flushall => .text
  | .get | .client => .textOrNil
  | .smembers => .texts
  | _ => .integer

/-- The form of the replies to a request. -/
def Request.form : Request → ReplyForm
  | .ping _ | .set _ _ _ | .clear => .text
  | .get _ | .setClientName _ | .clientName => .textOrNil
  | .setMembers _ => .texts
  | _ => .integer

theorem Request.form_of_asks (h : command.Asks args r) : r.form = command.form := by
  cases h <;> rfl

/-! ## Handlers -/

/-- An outcome that is a reply of a form, or a refusal. -/
inductive Outcome.Answers (form : ReplyForm) : Outcome → Prop where
  | reply {v : Value} {s : Keyspace} (h : form.Admits v) : Answers form (.ok v, s)
  | refusal {e : Error} {s : Keyspace} (h : e.IsRefusal) : Answers form (.error e, s)

namespace Outcome.Answers

variable {form : ReplyForm}

theorem admits {o : Outcome} (h : o.Answers form) (hv : o.1 = .ok v) : form.Admits v := by
  cases h with
  | reply h =>
    cases hv
    exact h
  | refusal => cases hv

theorem isRefusal {o : Outcome} (h : o.Answers form) (he : o.1 = .error e) :
    e.IsRefusal := by
  cases h with
  | reply => cases he
  | refusal h =>
    cases he
    exact h

/-- A counter is a number, or there is a reason to refuse it. -/
theorem isRefusal_of_counter {found : Option Entry} (h : counter found = .error e) :
    e.IsRefusal := by
  unfold counter at h
  split at h
  · cases h
  · split at h <;> cases h
    exact .command .notAnInteger
  · cases h
    exact .wrongType

theorem increase (delta : Int64) : (s.increase clock key delta).Answers .integer := by
  simp only [Keyspace.increase]
  split
  · rename_i hcounter
    exact refusal (isRefusal_of_counter hcounter)
  · split
    · exact refusal (.command .overflow)
    · split <;> exact reply (.integer _)

theorem expire (span : Span) : (s.expire clock key span).Answers .integer := by
  simp only [Keyspace.expire]
  split
  · exact reply (.integer _)
  · split
    · exact refusal (.command (.invalidExpiry _))
    · split <;> exact reply (.integer _)

theorem setString (value : String) (expiry : Option Span) :
    (s.setString clock key value expiry).Answers .text := by
  unfold Keyspace.setString
  split
  · exact reply (.text _)
  · split
    · exact refusal (.command (.invalidExpiry _))
    · exact reply (.text _)

theorem persist : (s.persist clock key).Answers .integer := by
  unfold Keyspace.persist
  split <;> exact reply (.integer _)

theorem remaining (unit : TimeUnit) : (s.remaining clock key unit).Answers .integer := by
  unfold Keyspace.remaining
  split <;> exact reply (.integer _)

theorem setAdd (members : List String) : (s.setAdd clock key members).Answers .integer := by
  unfold Keyspace.setAdd
  split
  · exact reply (.integer _)
  · exact refusal .wrongType

theorem sortedAdd (pairs : List (Float × String)) :
    (s.sortedAdd clock key pairs).Answers .integer := by
  unfold Keyspace.sortedAdd
  split
  · exact reply (.integer _)
  · exact refusal .wrongType

end Outcome.Answers

/-! ## Commands that read a key -/

/-- What a command makes of data is a reply of a form, or the type is wrong. -/
def ReplyForm.Reads (form : ReplyForm) (reply : Option Data → Except Error Value) : Prop :=
  ∀ found, (∃ v, reply found = .ok v ∧ form.Admits v) ∨ reply found = .error .wrongType

namespace ReplyForm.Reads

theorem stringReply : textOrNil.Reads Data.stringReply := by
  intro found
  unfold Data.stringReply
  split
  · exact .inl ⟨_, rfl, .nothing⟩
  · exact .inl ⟨_, rfl, .something _⟩
  · exact .inr rfl

theorem setSizeReply : integer.Reads Data.setSizeReply := by
  intro found
  unfold Data.setSizeReply
  split
  · exact .inl ⟨_, rfl, .integer _⟩
  · exact .inl ⟨_, rfl, .integer _⟩
  · exact .inr rfl

theorem membersReply : texts.Reads Data.membersReply := by
  intro found
  unfold Data.membersReply
  split
  · exact .inl ⟨_, rfl, .texts []⟩
  · exact .inl ⟨_, rfl, .texts _⟩
  · exact .inr rfl

theorem sortedSizeReply : integer.Reads Data.sortedSizeReply := by
  intro found
  unfold Data.sortedSizeReply
  split
  · exact .inl ⟨_, rfl, .integer _⟩
  · exact .inl ⟨_, rfl, .integer _⟩
  · exact .inr rfl

theorem answers {form : ReplyForm} {reply : Option Data → Except Error Value}
    (h : form.Reads reply) : (s.read clock key reply).Answers form := by
  simp only [Keyspace.read]
  rcases h ((s.lookup (clock 0) key).1.map Entry.data) with ⟨v, hreply, hv⟩ | hwrong
  · rw [hreply]
    exact .reply hv
  · rw [hwrong]
    exact .refusal .wrongType

end ReplyForm.Reads

/-! ## Requests and commands -/

/-- **A request is replied to in its form, or refused.** -/
theorem Request.answers_run (r : Request) (clock : Readings) (s : Keyspace) :
    (r.run clock s).Answers r.form := by
  cases r with
  | ping message => cases message <;> exact .reply (.text _)
  | get key => exact ReplyForm.Reads.stringReply.answers
  | set key value expiry => exact .setString value expiry
  | del keys | exist keys => exact .reply (.integer _)
  | increase key delta => exact .increase delta
  | expire key span => exact .expire span
  | persist key => exact .persist
  | remaining key unit => exact .remaining unit
  | setAdd key members => exact .setAdd members
  | setSize key => exact ReplyForm.Reads.setSizeReply.answers
  | setMembers key => exact ReplyForm.Reads.membersReply.answers
  | sortedAdd key pairs => exact .sortedAdd pairs
  | sortedSize key => exact ReplyForm.Reads.sortedSizeReply.answers
  | setClientName name => exact .reply (.something _)
  | clear => exact .reply (.text _)
  | clientName =>
    simp only [Request.run]
    cases s.clientName with
    | none => exact .reply .nothing
    | some name => exact .reply (.something name)
  | size => exact .reply (.integer _)

namespace Keyspace

/-- A reply of a command is the one of a request that the command asks for. -/
theorem exists_asks_of_dispatch (h : (s.dispatch clock name args).1 = .ok v) :
    ∃ command r, Command.ofName? name = some command ∧ command.Asks args r ∧
      (r.run clock s).1 = .ok v := by
  unfold dispatch at h
  split at h
  · cases h
  · rename_i r hcall
    obtain ⟨command, hnamed, hasks⟩ := Request.ofCall_eq_ok_iff.mp hcall
    exact ⟨command, r, hnamed, hasks, h⟩

/-- **A command replies in its form**, whatever the keyspace is. -/
theorem exists_form_of_dispatch (h : (s.dispatch clock name args).1 = .ok v) :
    ∃ command, Command.ofName? name = some command ∧ command.form.Admits v := by
  obtain ⟨command, r, hnamed, hasks, hreply⟩ := exists_asks_of_dispatch h
  have hform := (r.answers_run clock s).admits hreply
  rw [Request.form_of_asks hasks] at hform
  exact ⟨command, hnamed, hform⟩

/-- **A command replies with nothing, a text, an integer or a sequence of texts.** -/
theorem isReply_dispatch (h : (s.dispatch clock name args).1 = .ok v) : v.IsReply := by
  obtain ⟨command, -, hform⟩ := exists_form_of_dispatch h
  exact hform.isReply

/-- **A command without a reply is refused for one of the reasons.** -/
theorem isRefusal_of_dispatch (h : (s.dispatch clock name args).1 = .error e) :
    e.IsRefusal := by
  unfold dispatch at h
  split at h
  · rename_i fault hcall
    cases h
    exact .command (Request.Refuses.ofCall name args fault hcall)
  · rename_i r hcall
    exact (r.answers_run clock s).isRefusal h

end Keyspace

end ScriptStore
