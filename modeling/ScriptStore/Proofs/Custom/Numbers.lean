import Mathlib
import ScriptStore.Proofs.Custom.Strings
import ScriptStore.Proofs.Keyspace.Contents
import ScriptStore.Proofs.Value.Argument

/-!
# Numbers that leave scripts

A number of a script is a double, and one of a command is a text. What a script passes as a score or
as a value is written as an argument, and a command that needs a number reads it from there.

* `scoredArguments`, `Request.scoredMembers_scoredTexts` — scores and members as arguments, and what
  they are read as.
* `Custom.ask_zadd`, `Custom.ask_set` — what a script asks for that passes scores, or a value.
* `numbers_survive` — **a finite double is the same number as an argument**, and so is each score
  and each value that a script passes.
-/

namespace ScriptStore

open Script Binary64

variable {f : Float} {clock : Readings} {access : StoreAccess} {key : Val} {name : String}
  {options : List Val} {s : Keyspace}

/-! ## Scores -/

theorem isNaN_of_isFinite (finite : f.isFinite = true) : f.isNaN = false := by
  rw [Float.isNaN_eq_decide_eq_nan, decide_eq_false_iff_not]
  rintro rfl
  revert finite
  decide +kernel

theorem isFinite_unsignedZero (finite : f.isFinite = true) : (unsignedZero f).isFinite = true := by
  unfold unsignedZero
  split
  · decide +kernel
  · exact finite

/-- Scores and members as the arguments that a script passes. -/
def scoredArguments (pairs : List (Float × Bytes)) : List Val :=
  pairs.flatMap fun pair => [.float pair.1, .str pair.2]

/-- Scores and members as texts. -/
def scoredTexts (pairs : List (Float × Bytes)) : List String :=
  pairs.flatMap fun pair => [floatArgument pair.1, Utf8.decode pair.2]

/-- Scores and members as the store has them. -/
def storedScores (pairs : List (Float × Bytes)) : List (Float × String) :=
  pairs.map fun pair => (unsignedZero pair.1, Utf8.decode pair.2)

variable {pairs : List (Float × Bytes)}

theorem toArgument_scoredArguments (pairs : List (Float × Bytes)) :
    (scoredArguments pairs).map Val.toArgument = (scoredTexts pairs).map .ok := by
  induction pairs with
  | nil => rfl
  | cons pair pairs ih =>
    simp only [scoredArguments, scoredTexts, List.flatMap_cons, List.map_append] at ih ⊢
    rw [ih]
    rfl

/-- **Scores are read as the numbers that they have been written from.** -/
theorem Request.scoredMembers_scoredTexts (finite : ∀ pair ∈ pairs, pair.1.isFinite = true) :
    scoredMembers (scoredTexts pairs) = .ok (storedScores pairs) := by
  induction pairs with
  | nil => rfl
  | cons pair pairs ih =>
    obtain ⟨hfirst, hrest⟩ := List.forall_mem_cons.mp finite
    have hscore : scoreArgument (floatArgument pair.1) = .ok (unsignedZero pair.1) :=
      scoreArgument_eq_ok_iff.mpr
        ⟨readFloat?_floatArgument hfirst, isNaN_of_isFinite (isFinite_unsignedZero hfirst)⟩
    show scoredMembers (floatArgument pair.1 :: Utf8.decode pair.2 :: scoredTexts pairs) = _
    rw [scoredMembers, hscore, ih hrest]
    rfl

/-- **A script that gives scores gives the numbers that it has passed.** -/
theorem Custom.ask_zadd (hkey : key.toArgument = .ok name) (some : pairs ≠ [])
    (finite : ∀ pair ∈ pairs, pair.1.isFinite = true) (s : Keyspace) :
    ask clock s access (.ofString "ZADD" :: key :: scoredArguments pairs) =
      s.sortedAdd clock name (storedScores pairs) := by
  have hargs : (.ofString "ZADD" :: key :: scoredArguments pairs).map Val.toArgument =
      ("ZADD" :: name :: scoredTexts pairs).map .ok := by
    simp only [List.map_cons, toArgument_ofString, hkey, toArgument_scoredArguments]
  have hsome : storedScores pairs ≠ [] := by simpa [storedScores] using some
  have hread := Request.scoredMembers_scoredTexts finite
  have hcall : Request.ofCall "ZADD" (name :: scoredTexts pairs) =
      .ok (.sortedAdd name (storedScores pairs)) :=
    Request.ofCall_eq_ok_iff.mpr ⟨.zadd, by decide, .zadd name hsome hread⟩
  rw [ask_eq_dispatch hargs, Keyspace.dispatch, hcall]
  rfl

/-! ## Values -/

theorem Keyspace.exists_insert_of_setString {value : String} {expiry : Option Span} {reply : Value}
    (h : (s.setString clock name value expiry).1 = .ok reply) : ∃ deadline,
      (s.setString clock name value expiry).2 = s.insert name ⟨.string value, deadline⟩ := by
  unfold setString at h ⊢
  split
  · exact ⟨none, rfl⟩
  · split
    · rename_i hnone
      simp [hnone] at h
    · exact ⟨_, rfl⟩

/-- What a request that binds a key asks for. -/
theorem Request.exists_set_of_ofCall {text : String} {rest : List String} {r : Request}
    (h : ofCall "SET" (name :: text :: rest) = .ok r) : ∃ expiry, r = .set name text expiry := by
  obtain ⟨command, hnamed, asks⟩ := ofCall_eq_ok_iff.mp h
  have hset : Command.ofName? "SET" = some .set := by decide
  obtain rfl := Option.some.inj (hset.symm.trans hnamed)
  cases asks
  exact ⟨_, rfl⟩

/-- **A script that binds a key to a value binds it to the text of the value**, whatever options it
passes with it. -/
theorem Custom.ask_set {v : Val} {text : String} {reply : Value} (hkey : key.toArgument = .ok name)
    (hv : v.toArgument = .ok text)
    (h : (ask clock s access (.ofString "SET" :: key :: v :: options)).1 = .ok reply) :
    ∃ deadline, (ask clock s access (.ofString "SET" :: key :: v :: options)).2 =
      s.insert name ⟨.string text, deadline⟩ := by
  cases hof : commandOf access (.ofString "SET" :: key :: v :: options) with
  | error fault => simp [ask, hof] at h
  | ok command =>
    obtain ⟨called, texts⟩ := command
    have hargs := commandOf_eq_ok_iff.mp hof
    simp only [List.map_cons, toArgument_ofString, hkey, hv, List.cons.injEq, Except.ok.injEq]
      at hargs
    obtain ⟨rfl, hargs⟩ := hargs
    obtain ⟨name', texts, rfl, hname, hargs⟩ := List.map_eq_cons_iff.mp hargs.symm
    obtain ⟨text', rest, rfl, htext, -⟩ := List.map_eq_cons_iff.mp hargs
    cases hname
    cases htext
    simp only [ask, hof, Keyspace.dispatch] at h ⊢
    cases hcall : Request.ofCall "SET" (name :: text :: rest) with
    | error fault => simp [hcall] at h
    | ok r =>
      obtain ⟨expiry, rfl⟩ := Request.exists_set_of_ofCall hcall
      rw [hcall] at h
      exact Keyspace.exists_insert_of_setString h

/-! ## Numbers -/

/-- **Numbers survive as arguments.** Let a finite double be written as an argument of a custom
command, as one of a command of the store, or as a name in a mapping.

* It is a plain decimal number, without an exponent, and has a point exactly if the double is no
  integer.
* No finite double is nearer to the number that is written, and it is read as the double, a zero
  without its sign, which is the same number.
* An integer below `10 ^ 17` is written as the word that its integer part is, and is not cut off.
* A script that binds a key to the double, with options or without, binds it to this text, and reads
  the text there.
* A script that gives scores to members gives the numbers that it has passed. -/
theorem numbers_survive (finite : f.isFinite = true) :
    let text := floatArgument f
    (Value.float f).argument = .ok text ∧ (Val.float f).toArgument = .ok text ∧
    (Key.float f.toBits).fieldName? = some text ∧
    (∃ n : Numeral, n.IsPlain ∧ n.chars = text.toList ∧
      (n.fraction.isSome = true ↔ ¬ ∃ i : Int, value f = i) ∧
      ∀ g : Float, g.isFinite = true → |n.number - value f| ≤ |n.number - value g|) ∧
    (readFloat? text = some (unsignedZero f) ∧ value (unsignedZero f) = value f) ∧
    (∀ i : Int, value f = i → i.natAbs < 10 ^ 17 →
      (truncatedWord f).toInt = i ∧ text = int64Text (truncatedWord f)) ∧
    (∀ (i : Invocation) (key : Val), key.IsTextual → i.Stores key (.float f) (.ofString text)) ∧
    (∀ clock s access key name options reply, key.toArgument = .ok name →
      (Custom.ask clock s access (.ofString "SET" :: key :: .float f :: options)).1 = .ok reply →
      ∃ deadline, (Custom.ask clock s access (.ofString "SET" :: key :: .float f :: options)).2 =
        s.insert name ⟨.string text, deadline⟩) ∧
    ∀ clock s access key name before after member, key.toArgument = .ok name →
      (∀ pair ∈ before ++ after, pair.1.isFinite = true) →
      Custom.ask clock s access
          (.ofString "ZADD" :: key :: scoredArguments (before ++ (f, member) :: after)) =
        s.sortedAdd clock name (storedScores before ++
          (unsignedZero f, Utf8.decode member) :: storedScores after) := by
  intro text
  obtain ⟨n, writes⟩ := exists_writes finite
  have hinteger : toInt? f = none ↔ ¬ ∃ i : Int, value f = i := by
    simp only [Option.eq_none_iff_forall_ne_some, ne_eq, toInt?_eq_some_iff, finite, true_and,
      not_exists]
  have hnearest : ∀ g : Float, g.isFinite = true → |n.number - value f| ≤ |n.number - value g| := by
    intro g other
    rw [← value_unsignedZero f, ← writes.toFloat]
    exact toFloat_is_nearest (writes.toFloat ▸ isFinite_unsignedZero finite) other
  refine ⟨rfl, rfl, ?_, ⟨n, writes.plain, writes.chars, writes.pointed.trans hinteger, hnearest⟩,
    ⟨readFloat?_floatArgument finite, value_unsignedZero f⟩, ?_, ?_, ?_, ?_⟩
  · rw [Key.fieldName?, Float.ofBits_toBits]
  · intro i hi small
    exact floatArgument_eq_int64Text (toInt?_eq_some_iff.mpr ⟨finite, hi⟩) small
  · intro i key textual
    obtain ⟨name, hname⟩ := key.isTextual_iff.mp textual
    exact i.stores hname rfl
  · intro clock s access key name options reply hkey h
    exact Custom.ask_set hkey rfl h
  · intro clock s access key name before after member hkey others
    have hall : ∀ pair ∈ before ++ (f, member) :: after, pair.1.isFinite = true := by
      rw [List.forall_mem_append, List.forall_mem_cons]
      rw [List.forall_mem_append] at others
      exact ⟨others.1, finite, others.2⟩
    rw [Custom.ask_zadd hkey (by simp) hall, storedScores, List.map_append, List.map_cons]
    rfl

/-- An integer beyond the words, which ends in zeros that its double does not have, is a score all
the same, and so are the least double and a zero with a sign. -/
theorem numbers_survive_beyond_words :
    let scores : List (Float × Bytes) :=
      [(5e-324, bytes "least"), (1e23, bytes "large"), (-0.0, bytes "zero")]
    floatArgument 1e23 = "100000000000000000000000" ∧
      readFloat? "100000000000000000000000" = some 1e23 ∧
      Custom.ask (.frozen ⟨0, 0⟩) .empty .strict
          (.ofString "ZADD" :: .ofString "k" :: scoredArguments scores) =
        Keyspace.empty.sortedAdd (.frozen ⟨0, 0⟩) "k"
          [(5e-324, "least"), (1e23, "large"), (0.0, "zero")] := by
  intro scores
  have finite : (1e23 : Float).isFinite = true := by decide +kernel
  have htext : floatArgument 1e23 = "100000000000000000000000" := by decide +kernel
  have hsame : unsignedZero 1e23 = 1e23 := by decide +kernel
  obtain ⟨-, -, -, -, ⟨hback, -⟩, -, -, -, hscores⟩ := numbers_survive finite
  have hothers : ∀ pair ∈ [((5e-324 : Float), bytes "least")] ++ [((-0.0 : Float), bytes "zero")],
      pair.1.isFinite = true := by decide +kernel
  have hask := hscores (.frozen ⟨0, 0⟩) .empty .strict (.ofString "k") "k"
    [(5e-324, bytes "least")] [(-0.0, bytes "zero")] (bytes "large") (toArgument_ofString "k")
    hothers
  have hstored : storedScores [((5e-324 : Float), bytes "least")] ++
      (unsignedZero 1e23, Utf8.decode (bytes "large")) ::
        storedScores [((-0.0 : Float), bytes "zero")] =
      [(5e-324, "least"), (1e23, "large"), (0.0, "zero")] := by decide +kernel
  rw [hstored] at hask
  rw [htext, hsame] at hback
  exact ⟨htext, hback, hask⟩

end ScriptStore
