import ScriptStore.Custom.Invocation

/-!
# What work on the heap leaves alone

A failure has its message for good. Nothing that a script does, and no function of the library,
changes the messages that are there; new ones come from outside of the script only.

* `Outcome.Keeps`, `Routine.Keeps` — work that leaves the messages of failures as they are, behind
  each of its calls as before them; `Routine.Keeps.bind` — so does work in a row.
* `Library.keeps_run` — **the functions of the library leave the messages of failures alone**.
* `Routine.keeps_publish` — so does the preparation of a call.
-/

namespace ScriptStore.Script

variable {α β : Type}

/-- An outcome has left the failures as they were, and will leave them behind each call as they are
then. -/
def Outcome.Keeps (failures : Array Bytes) : Outcome α → Prop
  | .done _ h => h.failures = failures
  | .failed _ h => h.failures = failures
  | .calls _ _ h resume =>
    h.failures = failures ∧ ∀ results h', (resume results h').Keeps h'.failures

/-- A routine leaves the failures as they are. -/
def Routine.Keeps (r : Routine α) : Prop := ∀ h, (r h).Keeps h.failures

theorem Outcome.Keeps.bind {failures : Array Bytes} {o : Outcome α} {k : α → Heap → Outcome β}
    (first : o.Keeps failures) (rest : ∀ a, Routine.Keeps (k a)) : (o.bind k).Keeps failures := by
  induction o generalizing failures with
  | done a h =>
    have hsame : h.failures = failures := first
    have hrest : (k a h).Keeps h.failures := rest a h
    rwa [hsame] at hrest
  | failed f h => exact first
  | calls f args h resume ih => exact ⟨first.1, fun results h' => ih results h' (first.2 results h')⟩

namespace Routine

theorem Keeps.bind {r : Routine α} {k : α → Routine β} (first : r.Keeps)
    (rest : ∀ a, (k a).Keeps) : (r >>= k).Keeps :=
  fun h => Outcome.Keeps.bind (first h) rest

theorem keeps_pure (a : α) : (pure a : Routine α).Keeps := fun _ => rfl

theorem keeps_read (f : Heap → α) : (read f).Keeps := fun _ => rfl

theorem keeps_change {f : Heap → α × Heap} (same : ∀ h, (f h).2.failures = h.failures) :
    (change f).Keeps := fun h => same h

theorem keeps_fail (f : Fault) : (fail f : Routine α).Keeps := fun _ => rfl

theorem keeps_failOperation (text : String) : (failOperation text : Routine α).Keeps :=
  keeps_fail _

theorem keeps_failMessage (text : String) : (failMessage text : Routine α).Keeps := keeps_fail _

theorem keeps_call (f : Val) (args : List Val) : (call f args).Keeps :=
  fun _ => ⟨rfl, fun _ _ => rfl⟩

theorem keeps_lift (result : Except String α) : (lift result).Keeps := by
  cases result with
  | ok a => exact keeps_pure a
  | error text => exact keeps_failOperation text

/-! ## Access -/

theorem keeps_indexChain (fuel : Nat) (object key : Val) : (indexChain fuel object key).Keeps := by
  induction fuel generalizing object with
  | zero => exact keeps_failOperation _
  | succ fuel ih =>
    intro h
    have hcall (f : Val) : (do return (← call f [object, key]).headD .nil : Routine Val).Keeps :=
      .bind (keeps_call _ _) fun _ => keeps_pure _
    simp only [indexChain]
    split
    · split
      · split
        · rfl
        · exact hcall _ h
        · exact hcall _ h
        · exact ih _ h
      · rfl
    · exact ih _ h
    · rfl

theorem keeps_index (object key : Val) : (index object key).Keeps := keeps_indexChain _ object key

theorem keeps_rawStore (id : Nat) (key value : Val) : (rawStore id key value).Keeps := by
  unfold rawStore
  split
  · exact keeps_change fun _ => rfl
  · exact keeps_failOperation _

theorem keeps_storeChain (fuel : Nat) (object key value : Val) :
    (storeChain fuel object key value).Keeps := by
  induction fuel generalizing object with
  | zero => exact keeps_failOperation _
  | succ fuel ih =>
    intro h
    have hcall (f : Val) : (do let _ ← call f [object, key, value] : Routine Unit).Keeps :=
      .bind (keeps_call _ _) fun _ => keeps_pure _
    simp only [storeChain]
    split
    · split
      · exact hcall _ h
      · exact hcall _ h
      · exact keeps_rawStore _ _ _ h
      · exact ih _ h
      · exact keeps_rawStore _ _ _ h
    · rfl

theorem keeps_store (object key value : Val) : (store object key value).Keeps :=
  keeps_storeChain _ object key value

theorem keeps_lengthOf (v : Val) : (lengthOf v).Keeps := by
  unfold lengthOf
  split
  · exact keeps_pure _
  · refine .bind (keeps_read _) fun _ => ?_
    split
    · exact .bind (keeps_read _) fun _ => keeps_pure _
    · exact .bind (keeps_call _ _) fun _ => keeps_pure _
  · exact keeps_failOperation _

theorem keeps_tostring (v : Val) : (tostring v).Keeps := by
  refine .bind (keeps_read _) fun _ => ?_
  split
  · exact keeps_read _
  · refine .bind (keeps_call _ _) fun _ => ?_
    split
    · exact keeps_pure _
    · split
      · exact keeps_pure _
      · exact keeps_failMessage _

/-- The preparation of a call leaves the failures as they are. -/
theorem keeps_publish (keys args : List String) : (publish keys args).Keeps := by
  have htexts (name : String) (texts : List String) : (publishTexts name texts).Keeps :=
    .bind (keeps_change fun _ => rfl) fun _ => keeps_store _ _ _
  exact .bind (htexts _ _) fun _ => htexts _ _

end Routine

/-! ## The library -/

namespace Library

open Routine

variable (c : Call)

namespace Call

theorem keeps_fail (i : Nat) (text : String) : (c.fail i text : Routine α).Keeps :=
  keeps_failMessage _

theorem keeps_failType (i : Nat) (expected : String) : (c.failType i expected : Routine α).Keeps :=
  keeps_failMessage _

theorem keeps_any (i : Nat) : (c.any i).Keeps := by
  unfold any
  split
  · exact keeps_pure _
  · exact c.keeps_fail _ _

theorem keeps_table (i : Nat) : (c.table i).Keeps := by
  unfold table
  split
  · exact keeps_pure _
  · exact c.keeps_failType _ _

theorem keeps_string (i : Nat) : (c.string i).Keeps := by
  unfold string
  split
  · exact keeps_pure _
  · exact c.keeps_failType _ _

theorem keeps_number (i : Nat) : (c.number i).Keeps := by
  unfold number
  split
  · exact keeps_pure _
  · exact c.keeps_failType _ _

theorem keeps_integer (i : Nat) : (c.integer i).Keeps := by
  refine .bind (c.keeps_number i) fun _ => ?_
  split
  · exact keeps_pure _
  · exact c.keeps_fail _ _

theorem keeps_integerOr (i : Nat) (default : Int) : (c.integerOr i default).Keeps := by
  unfold integerOr
  split
  · exact keeps_pure _
  · exact c.keeps_integer i

end Call

/-! ### Basic functions -/

theorem keeps_textOf : (textOf c).Keeps :=
  .bind (c.keeps_any 1) fun _ => .bind (keeps_tostring _) fun _ => keeps_pure _

theorem keeps_numberOf : (numberOf c).Keeps := by
  unfold numberOf
  split
  · exact .bind (c.keeps_any 1) fun _ => keeps_pure _
  · refine .bind (c.keeps_integer 2) fun _ => ?_
    split
    · split
      · exact keeps_pure _
      · exact c.keeps_fail _ _
    · exact c.keeps_failType _ _

theorem keeps_raise (v : Val) (level : Int) : (raise v level).Keeps := by
  unfold raise
  split
  · split <;> exact keeps_fail _
  · exact keeps_fail _

theorem keeps_assertTrue : (assertTrue c).Keeps := by
  refine .bind (c.keeps_any 1) fun _ => ?_
  split
  · exact keeps_pure _
  · split <;> exact keeps_raise _ _

theorem keeps_selectFrom : (selectFrom c).Keeps := by
  unfold selectFrom
  simp only
  split
  · exact keeps_pure _
  · refine .bind (c.keeps_integer 1) fun _ => ?_
    split
    · split
      · exact c.keeps_fail _ _
      · exact keeps_pure _
    · split
      · exact c.keeps_fail _ _
      · exact keeps_pure _

theorem keeps_setMetatable : (setMetatable c).Keeps := by
  refine .bind (c.keeps_table 1) fun _ => ?_
  split
  · exact .bind (keeps_change fun _ => rfl) fun _ => keeps_pure _
  · exact .bind (keeps_change fun _ => rfl) fun _ => keeps_pure _
  · exact c.keeps_failType _ _

theorem keeps_nextEntry : (nextEntry c).Keeps := by
  refine .bind (c.keeps_table 1) fun _ => .bind (keeps_read _) fun _ => ?_
  split <;> exact keeps_pure _

theorem keeps_pairsOf : (pairsOf c).Keeps := by
  refine .bind (c.keeps_any 1) fun _ => .bind (keeps_read _) fun _ => ?_
  split
  · exact keeps_pure _
  · exact .bind (keeps_call _ _) fun _ => keeps_pure _

theorem keeps_nextItem : (nextItem c).Keeps :=
  .bind (c.keeps_integer 2) fun _ => .bind (keeps_index _ _) fun _ => keeps_pure _

/-! ### Functions on strings -/

theorem keeps_repeatString : (repeatString c).Keeps := by
  have hcopies (s separator : Bytes) (n : Int) :
      (if n ≤ 0 then return [.str []]
        else if stringLimit < (s.length + separator.length) * n.toNat then
          failMessage "resulting string too large"
        else return [.str ((List.replicate n.toNat s).intersperse separator).flatten] :
        Routine (List Val)).Keeps := by
    split
    · exact keeps_pure _
    · split
      · exact keeps_failMessage _
      · exact keeps_pure _
  refine .bind (c.keeps_string 1) fun s => .bind (c.keeps_integer 2) fun n => ?_
  simp only
  split
  · exact .bind (keeps_pure _) fun separator => hcopies s separator n
  · exact .bind (c.keeps_string 3) fun separator => hcopies s separator n

theorem keeps_subString : (subString c).Keeps :=
  .bind (c.keeps_string 1) fun _ => .bind (c.keeps_integer 2) fun _ =>
    .bind (c.keeps_integerOr 3 _) fun _ => keeps_pure _

/-! ### Formats -/

theorem keeps_literal (i : Nat) : (literal c i).Keeps := by
  unfold literal
  split
  · exact keeps_pure _
  · exact keeps_pure _
  · exact keeps_pure _
  · exact keeps_tostring _
  · exact keeps_tostring _
  · exact c.keeps_fail _ _

theorem keeps_convert (k : Conversion) (i : Nat) : (convert c k i).Keeps := by
  have hcheck (b : Bool) (text : String) :
      (unless b do failMessage text : Routine Unit).Keeps := by
    split
    · exact keeps_pure _
    · exact keeps_failMessage _
  unfold convert
  simp only
  split
  case h_1 => exact .bind (hcheck _ _) fun _ => .bind (c.keeps_integer i) fun _ => keeps_pure _
  case h_2 | h_3 | h_4 | h_5 | h_6 | h_7 =>
    exact .bind (c.keeps_integer i) fun _ => .bind (hcheck _ _) fun _ => keeps_pure _
  case h_8 | h_9 =>
    exact .bind (hcheck _ _) fun _ => .bind (c.keeps_number i) fun _ => keeps_pure _
  case h_10 | h_11 | h_12 | h_13 | h_14 =>
    exact .bind (c.keeps_number i) fun _ => .bind (hcheck _ _) fun _ => keeps_pure _
  case h_15 =>
    refine .bind (keeps_tostring _) fun _ => ?_
    split
    · exact keeps_pure _
    · split
      · exact .bind (c.keeps_fail i _) fun _ => .bind (hcheck _ _) fun _ => keeps_pure _
      · exact .bind (hcheck _ _) fun _ => keeps_pure _
  case h_16 =>
    split
    · exact keeps_literal c i
    · exact .bind (keeps_failMessage _) fun _ => keeps_literal c i
  case h_17 => exact keeps_failMessage _

theorem keeps_formatFrom (fuel : Nat) (text : Bytes) (i : Nat) :
    (formatFrom c fuel text i).Keeps := by
  induction fuel generalizing text i with
  | zero => exact keeps_pure _
  | succ fuel ih =>
    have hconvert (k : Conversion) (rest : Bytes) :
        (do
          let shown ← convert c k i
          return shown ++ (← formatFrom c fuel rest (i + 1))).Keeps :=
      .bind (keeps_convert c k i) fun _ => .bind (ih _ _) fun _ => keeps_pure _
    unfold formatFrom
    split
    · exact keeps_pure _
    · exact .bind (ih _ _) fun _ => keeps_pure _
    · simp only
      split
      · refine .bind (c.keeps_fail i _) fun _ => ?_
        split
        · exact .bind (keeps_failMessage _) fun _ => hconvert _ _
        · exact hconvert _ _
      · split
        · exact .bind (keeps_failMessage _) fun _ => hconvert _ _
        · exact hconvert _ _
    · exact .bind (ih _ _) fun _ => keeps_pure _

theorem keeps_format : (format c).Keeps :=
  .bind (c.keeps_string 1) fun _ => .bind (keeps_formatFrom c _ _ _) fun _ => keeps_pure _

/-! ### Functions on tables -/

theorem keeps_itemCount : (itemCount c).Keeps := by
  refine .bind (c.keeps_table 1) fun _ => .bind (keeps_lengthOf _) fun _ => ?_
  split
  · exact keeps_pure _
  · exact keeps_failMessage _

theorem keeps_itemsFrom (object : Val) (count : Nat) (i : Int) :
    (itemsFrom object count i).Keeps := by
  induction count generalizing i with
  | zero => exact keeps_pure _
  | succ count ih =>
    exact .bind (keeps_index _ _) fun _ => .bind (ih _) fun _ => keeps_pure _

theorem keeps_textsFrom (object : Val) (count : Nat) (i : Int) :
    (textsFrom object count i).Keeps := by
  induction count generalizing i with
  | zero => exact keeps_pure _
  | succ count ih =>
    refine .bind (keeps_index _ _) fun _ => ?_
    split
    · exact .bind (ih _) fun _ => keeps_pure _
    · exact keeps_failMessage _

theorem keeps_concatItems : (concatItems c).Keeps := by
  have htexts (id : Nat) (n : Int) (separator : Bytes) :
      (do
        let first ← c.integerOr 3 1
        let last ← c.integerOr 4 n
        let texts ← textsFrom (.table id) (last - first + 1).toNat first
        return [.str (texts.intersperse separator).flatten] : Routine (List Val)).Keeps :=
    .bind (c.keeps_integerOr 3 _) fun _ => .bind (c.keeps_integerOr 4 _) fun _ =>
      .bind (keeps_textsFrom _ _ _) fun _ => keeps_pure _
  refine .bind (keeps_itemCount c) fun (id, n) => ?_
  simp only
  split
  · exact .bind (keeps_pure _) fun separator => htexts id n separator
  · exact .bind (c.keeps_string 2) fun separator => htexts id n separator

theorem keeps_shiftUp (object : Val) (count : Nat) (last : Int) :
    (shiftUp object count last).Keeps := by
  induction count generalizing last with
  | zero => exact keeps_pure _
  | succ count ih =>
    exact .bind (keeps_index _ _) fun _ => .bind (keeps_store _ _ _) fun _ => ih _

theorem keeps_insertItem : (insertItem c).Keeps := by
  refine .bind (keeps_itemCount c) fun (id, n) => ?_
  simp only
  split
  · exact .bind (keeps_store _ _ _) fun _ => keeps_pure _
  · refine .bind (c.keeps_integer 2) fun _ => ?_
    split
    · exact .bind (keeps_shiftUp _ _ _) fun _ => .bind (keeps_store _ _ _) fun _ => keeps_pure _
    · exact c.keeps_fail _ _
  · exact keeps_failMessage _

theorem keeps_unpackItems : (unpackItems c).Keeps := by
  have hitems (first last : Int) :
      (if resultLimit ≤ last - first then failMessage "too many results to unpack"
        else itemsFrom (c.arg 1) (last - first + 1).toNat first : Routine (List Val)).Keeps := by
    split
    · exact keeps_failMessage _
    · exact keeps_itemsFrom _ _ _
  refine .bind (c.keeps_integerOr 2 1) fun first => ?_
  simp only
  split
  · refine .bind (keeps_lengthOf _) fun _ => ?_
    split
    · exact .bind (keeps_pure _) fun last => hitems first last
    · exact .bind (keeps_failMessage _) fun last => hitems first last
  · exact .bind (c.keeps_integer 3) fun last => hitems first last

namespace Sorting

variable (s : Sorting)

theorem keeps_item (i : Int) : (s.item i).Keeps := keeps_index _ _

theorem keeps_before (a b : Val) : (s.before a b).Keeps := by
  unfold before
  split
  · exact keeps_lift _
  · exact .bind (keeps_call _ _) fun _ => keeps_pure _

theorem keeps_put2 (i : Int) (a : Val) (j : Int) (b : Val) : (s.put2 i a j b).Keeps :=
  .bind (keeps_store _ _ _) fun _ => keeps_store _ _ _

theorem keeps_exchange (i j : Int) : (s.exchange i j).Keeps := by
  refine .bind (s.keeps_item i) fun _ => .bind (s.keeps_item j) fun _ =>
    .bind (s.keeps_before _ _) fun _ => ?_
  split
  · exact .bind (s.keeps_put2 _ _ _ _) fun _ => keeps_pure _
  · exact keeps_pure _

theorem keeps_scanUp (pivot : Val) (high : Int) (fuel : Nat) (i : Int) :
    (s.scanUp pivot high fuel i).Keeps := by
  induction fuel generalizing i with
  | zero => exact keeps_failMessage _
  | succ fuel ih =>
    refine .bind (s.keeps_item i) fun _ => .bind (s.keeps_before _ _) fun _ => ?_
    split
    · split
      · exact keeps_failMessage _
      · exact ih _
    · exact keeps_pure _

theorem keeps_scanDown (pivot : Val) (low : Int) (fuel : Nat) (j : Int) :
    (s.scanDown pivot low fuel j).Keeps := by
  induction fuel generalizing j with
  | zero => exact keeps_failMessage _
  | succ fuel ih =>
    refine .bind (s.keeps_item j) fun _ => .bind (s.keeps_before _ _) fun _ => ?_
    split
    · split
      · exact keeps_failMessage _
      · exact ih _
    · exact keeps_pure _

theorem keeps_partition (pivot : Val) (high : Int) (fuel : Nat) (i j : Int) :
    (s.partition pivot high fuel i j).Keeps := by
  induction fuel generalizing i j with
  | zero => exact keeps_failMessage _
  | succ fuel ih =>
    refine .bind (s.keeps_scanUp _ _ _ _) fun (i, a) =>
      .bind (s.keeps_scanDown _ _ _ _) fun (j, b) => ?_
    simp only
    split
    · exact .bind (s.keeps_item _) fun _ => .bind (s.keeps_put2 _ _ _ _) fun _ => keeps_pure _
    · exact .bind (s.keeps_put2 _ _ _ _) fun _ => ih _ _

theorem keeps_range (fuel : Nat) (low high : Int) : (s.range fuel low high).Keeps := by
  induction fuel generalizing low high with
  | zero => exact keeps_pure _
  | succ fuel ih =>
    have hsplit (middle : Int) :
        (do
          if high - low = 2 then return ()
          let pivot ← s.item middle
          let last ← s.item (high - 1)
          s.put2 middle last (high - 1) pivot
          let p ← s.partition pivot high (high - low).toNat low (high - 1)
          if p - low < high - p then
            range s fuel low (p - 1)
            range s fuel (p + 1) high
          else
            range s fuel (p + 1) high
            range s fuel low (p - 1)).Keeps := by
      split
      · exact keeps_pure _
      · refine .bind (s.keeps_item _) fun _ => .bind (s.keeps_item _) fun _ =>
          .bind (s.keeps_put2 _ _ _ _) fun _ => .bind (s.keeps_partition _ _ _ _ _) fun _ => ?_
        split <;> exact .bind (ih _ _) fun _ => ih _ _
    unfold range
    simp only
    split
    · exact keeps_pure _
    · refine .bind (s.keeps_exchange _ _) fun _ => ?_
      split
      · exact keeps_pure _
      · refine .bind (s.keeps_exchange _ _) fun _ => ?_
        split
        · exact hsplit _
        · exact .bind (s.keeps_exchange _ _) fun _ => hsplit _

end Sorting

theorem keeps_sortItems : (sortItems c).Keeps := by
  have hsort (id : Nat) (n : Int) (order : Val) :
      (do
        Sorting.range ⟨.table id, order⟩ (n.toNat + 1) 1 n
        return [] : Routine (List Val)).Keeps :=
    .bind (Sorting.keeps_range _ _ _ _) fun _ => keeps_pure _
  refine .bind (keeps_itemCount c) fun (id, n) => ?_
  simp only
  split
  · exact keeps_pure _
  · split
    · exact .bind (keeps_pure _) fun _ => hsort _ _ _
    · exact .bind (keeps_pure _) fun _ => hsort _ _ _
    · exact .bind (keeps_pure _) fun _ => hsort _ _ _
    · exact .bind (c.keeps_failType _ _) fun _ => hsort _ _ _

/-! ### All of them -/

/-- **The functions of the library leave the messages of failures alone.** -/
theorem keeps_run (b : Builtin) (args : List Val) : (b.run args).Keeps := by
  let c : Call := ⟨b.name, args⟩
  cases b with
  | type | ipairs | mathType => exact .bind (c.keeps_any 1) fun _ => keeps_pure _
  | tostring => exact keeps_textOf c
  | tonumber => exact keeps_numberOf c
  | error => exact .bind (c.keeps_integerOr 2 1) fun _ => keeps_raise _ _
  | assert => exact keeps_assertTrue c
  | select => exact keeps_selectFrom c
  | pairs => exact keeps_pairsOf c
  | setmetatable => exact keeps_setMetatable c
  | next => exact keeps_nextEntry c
  | step => exact keeps_nextItem c
  | stringRep => exact keeps_repeatString c
  | stringFormat => exact keeps_format c
  | stringSub => exact keeps_subString c
  | stringUpper => exact .bind (c.keeps_string 1) fun _ => keeps_pure _
  | tableConcat => exact keeps_concatItems c
  | tableInsert => exact keeps_insertItem c
  | tableUnpack => exact keeps_unpackItems c
  | tableSort => exact keeps_sortItems c
  | print | pcall | storeCall | storeTry => exact keeps_pure _

end Library

end ScriptStore.Script
