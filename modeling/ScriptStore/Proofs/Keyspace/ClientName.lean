import Mathlib
import ScriptStore.Proofs.Keyspace.Calls

/-!
# The name of the client

A client may name itself, and may ask for its name. Nothing else has to do with the name.

* `Issued.givenName?`, `Keyspace.lastName?` — the name that a command would give the client, and the
  last name in a run that a command has given it.
* `Request.clientName_run` — what one request does to the name.
* `Keyspace.clientName_replay` — **after a run the client has the last name that it has been given**.
* `ValidClientName` — a name as the refusal of any other describes it: without spaces, newlines and
  other control characters. Only a space is looked for.
* `client_name_is_the_last` — **asked for its name, the client is told the last one that it has been
  given; and a name is refused exactly if it is not valid, as long as names with control characters
  have a space, too**.
-/

namespace ScriptStore

open Keyspace

variable {clock : Readings} {now : Moment} {s t : Keyspace} {key name : String}
  {args : List String} {r : Request} {c : Issued} {commands : List Issued} {command : Command}

/-! ## Names that are given -/

/-- The name that a request gives the client. -/
def Request.givenName? : Request → Option String
  | .setClientName name => some name
  | _ => none

/-- The name that a command would give the client, whether it is refused or not. -/
def Issued.givenName? (c : Issued) : Option String :=
  match Command.ofName? c.name, c.args with
  | some .client, [sub, name] => if asciiLower sub = "setname" then some name else none
  | _, _ => none

/-- A command that asks for the name of the client. -/
def Issued.AsksName (c : Issued) : Prop :=
  Command.ofName? c.name = some .client ∧ ∃ sub, c.args = [sub] ∧ asciiLower sub = "getname"

/-- The name that a command has given the client. One that fails gives none. -/
def Issued.newName? (s : Keyspace) (c : Issued) : Option String :=
  if (c.outcome s).1.isOk then c.givenName? else none

namespace Keyspace

/-- The last name that commands in a row have given the client. -/
def lastName? (s : Keyspace) : List Issued → Option String
  | [] => none
  | c :: rest => ((c.outcome s).2.lastName? rest).or (c.newName? s)

/-! ## What requests do to the name -/

theorem clientName_of_lookup {found : Option Entry} (h : s.lookup now key = (found, t)) :
    t.clientName = s.clientName := by
  have hsame := clientName_lookup s now key
  rwa [h] at hsame

@[simp] theorem clientName_insert (s : Keyspace) (key : String) (e : Entry) :
    (s.insert key e).clientName = s.clientName := rfl

theorem clientName_increase (delta : Int64) :
    (s.increase clock key delta).2.clientName = s.clientName := by
  have hfirst := clientName_lookup s (clock 0) key
  simp only [increase]
  split
  · exact hfirst
  · split
    · exact hfirst
    · split
      · rename_i hlookup
        exact (clientName_of_lookup hlookup).trans hfirst
      · rename_i hlookup
        exact (clientName_of_lookup hlookup).trans hfirst

theorem clientName_expire (span : Span) :
    (s.expire clock key span).2.clientName = s.clientName := by
  simp only [expire]
  split
  · exact clientName_remove s (clock 0) key
  · split
    · rfl
    · split
      · rename_i hlookup
        exact clientName_of_lookup hlookup
      · rename_i hlookup
        rw [clientName_insert]
        exact clientName_of_lookup hlookup

theorem clientName_setString (value : String) (expiry : Option Span) :
    (s.setString clock key value expiry).2.clientName = s.clientName := by
  unfold setString
  split
  · rfl
  · split <;> rfl

theorem clientName_persist : (s.persist clock key).2.clientName = s.clientName := by
  unfold persist
  split
  · rename_i hlookup
    rw [clientName_insert]
    exact clientName_of_lookup hlookup
  · rename_i hlookup
    exact clientName_of_lookup hlookup

theorem clientName_remaining (unit : TimeUnit) :
    (s.remaining clock key unit).2.clientName = s.clientName := by
  unfold remaining
  split
  all_goals
    rename_i hlookup
    exact clientName_of_lookup hlookup

theorem clientName_ensure (s : Keyspace) (now : Moment) (key : String) (data : Data) :
    (s.ensure now key data).clientName = s.clientName := by
  unfold ensure
  split
  · rename_i hlookup
    exact clientName_of_lookup hlookup
  · rename_i hlookup
    rw [clientName_insert]
    exact clientName_of_lookup hlookup

theorem clientName_grow (a : Addition) : (s.grow clock key a).2.clientName = s.clientName := by
  have hfirst := clientName_ensure s (clock 0) key a.fresh
  unfold grow
  split
  · rename_i hlookup
    exact (clientName_of_lookup hlookup).trans hfirst
  · rename_i hlookup
    split
    · exact (clientName_of_lookup hlookup).trans hfirst
    · exact (clientName_of_lookup hlookup).trans hfirst

theorem clientName_removeAll (clock : Readings) (s : Keyspace) (i : Nat) (keys : List String) :
    (removeAll clock s i keys).2.clientName = s.clientName := by
  induction keys generalizing s i with
  | nil => rfl
  | cons first keys ih => exact (ih _ (i + 1)).trans (clientName_remove s (clock i) first)

theorem clientName_countLive (clock : Readings) (s : Keyspace) (i : Nat) (keys : List String) :
    (countLive clock s i keys).2.clientName = s.clientName := by
  induction keys generalizing s i with
  | nil => rfl
  | cons first keys ih => exact (ih _ (i + 1)).trans (clientName_lookup s (clock i) first)

end Keyspace

/-- **A request gives the client its name, or leaves the name alone.** -/
theorem Request.clientName_run (r : Request) (clock : Readings) (s : Keyspace) :
    (r.run clock s).2.clientName = r.givenName?.or s.clientName := by
  cases r with
  | ping message => cases message <;> rfl
  | get key | setSize key | setMembers key | sortedSize key =>
    exact clientName_lookup s (clock 0) key
  | set key value expiry => exact clientName_setString value expiry
  | del keys => exact clientName_removeAll clock s 0 keys
  | exist keys => exact clientName_countLive clock s 0 keys
  | increase key delta => exact clientName_increase delta
  | expire key span => exact clientName_expire span
  | persist key => exact clientName_persist
  | remaining key unit => exact clientName_remaining unit
  | setAdd key members =>
    rw [run, setAdd_eq_grow]
    exact clientName_grow _
  | sortedAdd key pairs =>
    rw [run, sortedAdd_eq_grow]
    exact clientName_grow _
  | setClientName name | clientName | size | clear => rfl

/-! ## What commands do to the name -/

namespace Issued

theorem givenName?_of_asks (named : Command.ofName? c.name = some command)
    (asks : command.Asks c.args r) : r.givenName? = c.givenName? := by
  obtain ⟨clock, name, args⟩ := c
  simp only at named asks
  simp only [givenName?, named]
  cases asks with
  | setClientName h h' => simp [Request.givenName?, h]
  | _ => rfl

/-- **A command that succeeds gives the client its name, or leaves the name alone.** One that fails
leaves it alone. -/
theorem clientName_outcome (c : Issued) (s : Keyspace) :
    (c.outcome s).2.clientName = (c.newName? s).or s.clientName := by
  rw [newName?]
  cases hcall : Request.ofCall c.name c.args with
  | error fault =>
    rw [outcome, dispatch, hcall]
    rfl
  | ok r =>
    obtain ⟨command, hnamed, hasks⟩ := Request.ofCall_eq_ok_iff.mp hcall
    rw [outcome_of_ofCall hcall, r.clientName_run, ← givenName?_of_asks hnamed hasks]
    cases r with
    | setClientName name => rfl
    | _ => simp [Request.givenName?]

end Issued

namespace Keyspace

theorem lastName?_snoc (s : Keyspace) (commands : List Issued) (c : Issued) :
    s.lastName? (commands ++ [c]) = (c.newName? (s.replay commands)).or (s.lastName? commands) := by
  induction commands generalizing s with
  | nil => simp [lastName?, replay]
  | cons first rest ih =>
    rw [List.cons_append, lastName?, ih, lastName?, replay_cons, Option.or_assoc]

/-- **After a run the client has the last name that it has been given.** -/
theorem clientName_replay (s : Keyspace) (commands : List Issued) :
    (s.replay commands).clientName = (s.lastName? commands).or s.clientName := by
  induction commands using List.reverseRecOn with
  | nil => rfl
  | append_singleton commands c ih =>
    have hstep := c.clientName_outcome (s.replay commands)
    rw [replay_append, lastName?_snoc, Option.or_assoc, ← ih]
    exact hstep

end Keyspace

/-! ## Valid names -/

/-- The control characters: those below the space, and the second row of them after `DEL`. -/
def isControl (c : Char) : Bool := c.toNat < 32 || (127 ≤ c.toNat && c.toNat < 160)

/-- A name without spaces, newlines and other control characters. -/
def ValidClientName (name : String) : Prop :=
  ∀ c ∈ name.toList, c ≠ ' ' ∧ isControl c = false

instance (name : String) : Decidable (ValidClientName name) :=
  inferInstanceAs (Decidable (∀ c ∈ name.toList, _ ∧ _))

/-- A look for a space tells whether a name is valid: it has a space, or no control characters. -/
def SpaceTells (name : String) : Prop :=
  ' ' ∈ name.toList ∨ ∀ c ∈ name.toList, isControl c = false

/-- Without a space, a name is valid exactly if it has no control characters. -/
theorem valid_iff_of_no_space (h : ' ' ∉ name.toList) :
    ValidClientName name ↔ ∀ c ∈ name.toList, isControl c = false := by
  constructor
  · intro valid c hc
    exact (valid c hc).2
  · intro plain c hc
    refine ⟨?_, plain c hc⟩
    rintro rfl
    exact h hc

theorem not_valid_of_space (h : ' ' ∈ name.toList) : ¬ ValidClientName name :=
  fun valid => (valid ' ' h).1 rfl

/-! ## Commands about the name -/

namespace Issued

/-- A command that names the client is its request, or is refused for a space. -/
theorem ofCall_of_givenName? (h : c.givenName? = some name) :
    Request.ofCall c.name c.args =
      if ' ' ∈ name.toList then .error .invalidClientName else .ok (.setClientName name) := by
  obtain ⟨clock, called, args⟩ := c
  unfold givenName? at h
  simp only at h
  split at h
  · rename_i sub given hnamed
    split at h
    · rename_i hsub
      cases h
      simp [Request.ofCall, hnamed, Command.arity, Arity.accepts, Request.ofArguments,
        Request.clientArguments, hsub]
    · cases h
  · cases h

theorem ofCall_of_asksName (h : c.AsksName) : Request.ofCall c.name c.args = .ok .clientName := by
  obtain ⟨hnamed, sub, hargs, hsub⟩ := h
  rw [hargs]
  exact Request.ofCall_eq_ok_iff.mpr ⟨.client, hnamed, .clientName hsub⟩

/-- A name with a space is refused, and the keyspace is left as it is. -/
theorem outcome_of_space (given : c.givenName? = some name) (h : ' ' ∈ name.toList)
    (s : Keyspace) : c.outcome s = (.error (.command .invalidClientName), s) := by
  rw [outcome, dispatch, ofCall_of_givenName? given, if_pos h]

/-- A name without a space is given. -/
theorem outcome_of_no_space (given : c.givenName? = some name) (h : ' ' ∉ name.toList)
    (s : Keyspace) : c.outcome s = (.ok .ok, { s with clientName := some name }) := by
  rw [outcome, dispatch, ofCall_of_givenName? given, if_neg h]
  rfl

/-- **A name is refused exactly if it is not valid, for those names of which a look for a space tells
it and for no others.** -/
theorem refused_iff_iff (given : c.givenName? = some name) (s : Keyspace) :
    ((c.outcome s).1.isOk = false ↔ ¬ ValidClientName name) ↔ SpaceTells name := by
  by_cases hspace : ' ' ∈ name.toList
  · have hinvalid := not_valid_of_space hspace
    rw [outcome_of_space given hspace]
    exact iff_of_true (iff_of_true rfl hinvalid) (.inl hspace)
  · rw [outcome_of_no_space given hspace, valid_iff_of_no_space hspace, SpaceTells]
    simp [Except.isOk, Except.toBool, hspace]

end Issued

namespace Keyspace

/-- The last name that has been given has been given by one of the commands, and has no space. -/
theorem exists_givenName?_of_lastName? (h : s.lastName? commands = some name) :
    (∃ c ∈ commands, c.givenName? = some name) ∧ ' ' ∉ name.toList := by
  induction commands using List.reverseRecOn with
  | nil => cases h
  | append_singleton commands c ih =>
    rw [lastName?_snoc, Option.or_eq_some_iff] at h
    rcases h with hnew | ⟨-, hbefore⟩
    · rw [Issued.newName?] at hnew
      split at hnew
      · rename_i hok
        refine ⟨⟨c, by simp, hnew⟩, ?_⟩
        intro hspace
        rw [Issued.outcome_of_space hnew hspace] at hok
        cases hok
      · cases hnew
    · obtain ⟨⟨first, hfirst, hgiven⟩, hspace⟩ := ih hbefore
      exact ⟨⟨first, by simp [hfirst], hgiven⟩, hspace⟩

end Keyspace

/-- **The client has the last name that it has been given.** After any run:

* asked for the name of the client, the keyspace tells the last one that it has been given, or
  nothing if it has been given none;
* a name with a space is refused and leaves everything as it is, and any other is given;
* a name is refused exactly if it is not valid, for those names of which a look for a space tells it
  and for no others;
* the name of the client has no space, and is valid if a look for a space tells so of the names that
  commands have come with. -/
theorem client_name_is_the_last (commands : List Issued) :
    let s := Keyspace.empty.replay commands
    let last := Keyspace.empty.lastName? commands
    (∀ c : Issued, c.AsksName → c.outcome s = (.ok (last.elim .nil .text), s)) ∧
      (∀ (c : Issued) (name : String), c.givenName? = some name →
        (' ' ∈ name.toList → c.outcome s = (.error (.command .invalidClientName), s)) ∧
        (' ' ∉ name.toList → c.outcome s = (.ok .ok, { s with clientName := some name })) ∧
        (((c.outcome s).1.isOk = false ↔ ¬ ValidClientName name) ↔ SpaceTells name)) ∧
      ∀ name : String, s.clientName = some name → ' ' ∉ name.toList ∧
        ((∀ c ∈ commands, ∀ given, c.givenName? = some given → SpaceTells given) →
          ValidClientName name) := by
  intro s last
  have hname : s.clientName = last := by
    rw [clientName_replay]
    exact Option.or_none
  refine ⟨?_, ?_, ?_⟩
  · intro c asks
    rw [Issued.outcome_of_ofCall (Issued.ofCall_of_asksName asks), Request.run, hname]
  · intro c name given
    exact ⟨fun h => Issued.outcome_of_space given h s, fun h => Issued.outcome_of_no_space given h s,
      Issued.refused_iff_iff given s⟩
  · intro name h
    rw [hname] at h
    obtain ⟨⟨c, hc, hgiven⟩, hspace⟩ := exists_givenName?_of_lastName? h
    refine ⟨hspace, ?_⟩
    intro tells
    rcases tells c hc name hgiven with hblank | hplain
    · exact absurd hblank hspace
    · exact (valid_iff_of_no_space hspace).mpr hplain

/-- A name outlives the keys, and a name with a space does not replace it. -/
theorem client_name_is_the_last_after_clearing :
    let given : Issued := ⟨.frozen ⟨0, 0⟩, "client", ["SETNAME", "a"]⟩
    let cleared : Issued := ⟨.frozen ⟨0, 0⟩, "FLUSHALL", []⟩
    let spaced : Issued := ⟨.frozen ⟨1, 0⟩, "CLIENT", ["SETNAME", "b c"]⟩
    let asking : Issued := ⟨.frozen ⟨1, 0⟩, "CLIENT", ["GETNAME"]⟩
    let s := Keyspace.empty.replay [given, cleared]
    asking.outcome s = (.ok (.text "a"), s) ∧
      spaced.outcome s = (.error (.command .invalidClientName), s) := by
  intro given cleared spaced asking s
  have hsub : asciiLower "SETNAME" = "setname" := by decide
  have hnamed : Command.ofName? "CLIENT" = some .client := by decide
  have hlower : Command.ofName? "client" = some .client := by decide
  have hclear : Command.ofName? "FLUSHALL" = some .flushall := by decide
  have hgiven : given.givenName? = some "a" := by simp [given, Issued.givenName?, hlower, hsub]
  have hspaced : spaced.givenName? = some "b c" := by
    simp [spaced, Issued.givenName?, hnamed, hsub]
  have hcleared : cleared.givenName? = none := by simp [cleared, Issued.givenName?, hclear]
  have hlast : Keyspace.empty.lastName? [given, cleared] = some "a" := by
    simp only [lastName?, Issued.newName?, hgiven, hcleared, ite_self, Option.or_none,
      Option.none_or, Issued.outcome_of_no_space hgiven (by decide)]
    rfl
  obtain ⟨told, gives, -⟩ := client_name_is_the_last [given, cleared]
  rw [hlast] at told
  exact ⟨told asking ⟨hnamed, "GETNAME", rfl, by decide⟩, (gives spaced "b c" hspaced).1 (by decide)⟩

/-- A name with a newline is given, and is told. -/
theorem newline_in_client_name :
    let given : Issued := ⟨.frozen ⟨0, 0⟩, "CLIENT", ["SETNAME", "a\nb"]⟩
    let asking : Issued := ⟨.frozen ⟨1, 0⟩, "CLIENT", ["GETNAME"]⟩
    ¬ ValidClientName "a\nb" ∧ (given.outcome Keyspace.empty).1 = .ok .ok ∧
      (asking.outcome (Keyspace.empty.replay [given])).1 = .ok (.text "a\nb") := by
  intro given asking
  have hnamed : Command.ofName? "CLIENT" = some .client := by decide
  have hgiven : given.givenName? = some "a\nb" := by
    simp [given, Issued.givenName?, hnamed, (by decide : asciiLower "SETNAME" = "setname")]
  have hgives := Issued.outcome_of_no_space hgiven (by decide) Keyspace.empty
  have hname : (Keyspace.empty.replay [given]).clientName = some "a\nb" := by
    rw [replay_cons, hgives]
    rfl
  have hasks : asking.AsksName := ⟨hnamed, "GETNAME", rfl, by decide⟩
  refine ⟨?_, ?_, ?_⟩
  · intro valid
    have hplain := (valid '\n' (by decide)).2
    cases hplain
  · rw [hgives]
  · rw [Issued.outcome_of_ofCall (Issued.ofCall_of_asksName hasks), Request.run, hname]
    rfl

end ScriptStore
