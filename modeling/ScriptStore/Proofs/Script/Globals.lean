import ScriptStore.Custom.Invocation
import ScriptStore.Proofs.Script.Table

/-!
# Global variables

Global variables are the entries of a table like any other, so a metatable may stand between them
and those who read or bind them.

* `Routine.index_of_held` — what a table holds, a global variable for one, is read as it is.
* `Heap.Accepts` — no metatable keeps a global variable from being bound; `Routine.store_global` —
  such a variable is bound in the table of global variables.
* `get_namedTable`, `Heap.accepts_initial` — what a fresh environment holds and accepts.
* `Heap.publish` — the heap with a global variable bound to a new table of texts, which is what
  `Routine.publishTexts_eq` finds in a heap that accepts the variable.
* `Heap.Published` — a global variable is bound to a table with these texts and nothing else.
* `Heap.Publishes` — no function of a script takes part in publishing the arguments of a call;
  `Routine.exists_of_publishTexts_eq_done` — what has changed then.
-/

namespace ScriptStore.Script

variable {h : Heap} {name other : String} {texts : List String} {id fuel : Nat} {key v : Val}

/-! ## Reading and binding -/

theorem Routine.indexChain_of_held (held : h.rawGet id key ≠ .nil) :
    Routine.indexChain (fuel + 1) (.table id) key h = .done (h.rawGet id key) h := by
  -- what is held is not `nil`, so no metatable is asked
  simp only [Routine.indexChain]

/-- What a table holds is read without its metatable. -/
theorem Routine.index_of_held (held : h.rawGet id key ≠ .nil) :
    Routine.index (.table id) key h = .done (h.rawGet id key) h := by
  have hlimit : Routine.chainLimit = 1999 + 1 := rfl
  rw [Routine.index, hlimit]
  exact indexChain_of_held held

/-- No metatable keeps a global variable from being bound: it is there already, or nothing takes the
place of those that are not. -/
def Heap.Accepts (h : Heap) (name : String) : Prop :=
  h.rawGet Heap.globals (.ofString name) ≠ .nil ∨
    h.metaField (.table Heap.globals) metaNewIndex = .nil

theorem Routine.storeChain_of_held (held : h.rawGet id key ≠ .nil) :
    Routine.storeChain (fuel + 1) (.table id) key v h = Routine.rawStore id key v h := by
  simp only [Routine.storeChain]
  cases hraw : h.rawGet id key with
  | nil => exact (held hraw).elim
  | _ => rfl

theorem Routine.storeChain_of_plain (plain : h.metaField (.table id) metaNewIndex = .nil) :
    Routine.storeChain (fuel + 1) (.table id) key v h = Routine.rawStore id key v h := by
  simp only [Routine.storeChain, plain]
  cases h.rawGet id key <;> rfl

/-- A global variable that no metatable keeps from it is bound in the table of these. -/
theorem Routine.store_global (accepts : h.Accepts name) (v : Val) :
    Routine.store (.table Heap.globals) (.ofString name) v h =
      .done () (h.modifyTable Heap.globals fun t => t.set (.ofString name) v) := by
  have hlimit : Routine.chainLimit = 1999 + 1 := rfl
  rw [Routine.store, hlimit]
  rcases accepts with held | plain
  · rw [storeChain_of_held held]
    rfl
  · rw [storeChain_of_plain plain]
    rfl

/-! ## Fresh environments -/

theorem namedTable_snoc (fields : List (String × Val)) (name : String) (v : Val) :
    namedTable (fields ++ [(name, v)]) = (namedTable fields).set (.ofString name) v := by
  simp [namedTable, List.foldl_append]

@[simp] theorem metatable_namedTable (fields : List (String × Val)) :
    (namedTable fields).metatable = none := by
  induction fields using List.reverseRecOn with
  | nil => rfl
  | append_singleton fields field ih => rw [namedTable_snoc, Table.metatable_set, ih]

/-- Of the values that have a name, a table of named values holds the last one. -/
theorem get_namedTable (fields : List (String × Val)) (k : Key) :
    (namedTable fields).get k =
      ((fields.reverse.find? fun p => Key.ofString p.1 = k).map Prod.snd).getD .nil := by
  induction fields using List.reverseRecOn with
  | nil => rfl
  | append_singleton fields field ih =>
    obtain ⟨name, v⟩ := field
    rw [namedTable_snoc, Table.get_set, List.reverse_append, List.reverse_singleton,
      List.singleton_append, List.find?_cons]
    by_cases hname : Key.ofString name = k
    · simp [hname]
    · simp [hname, Ne.symm hname, ih]

/-- In a fresh environment nothing keeps a global variable from being bound. -/
theorem Heap.accepts_initial (name : String) : Heap.initial.Accepts name := by
  have hplain : (Heap.initial.table Heap.globals).metatable = none := metatable_namedTable _
  refine .inr ?_
  rw [Heap.metaField, hplain]
  rfl

/-! ## Publishing texts -/

/-- The heap with a global variable bound to a new table of texts. -/
def Heap.publish (h : Heap) (name : String) (texts : List String) : Heap :=
  (h.newTable (.ofList (texts.map .ofString))).2.modifyTable Heap.globals fun t =>
    t.set (.ofString name) (.table h.tables.size)

namespace Heap

variable {h' : Heap}

theorem globals_ne_size (h : Heap) : globals ≠ h.tables.size := Nat.ne_of_lt h.tables_nonempty

@[simp] theorem size_publish (h : Heap) (name : String) (texts : List String) :
    (h.publish name texts).tables.size = h.tables.size + 1 := by
  simp [publish, modifyTable, newTable]

theorem table_publish (h : Heap) (name : String) (texts : List String) (id : Nat) :
    (h.publish name texts).table id =
      if id = globals then (h.table globals).set (.ofString name) (.table h.tables.size)
      else if id = h.tables.size then .ofList (texts.map .ofString)
      else h.table id := by
  have hsize : globals < (h.newTable (.ofList (texts.map .ofString))).2.tables.size := by
    simp [newTable, globals]
  rw [publish, table_modifyTable _ _ _ _ hsize, table_newTable, table_newTable,
    if_neg h.globals_ne_size]

/-- There is nothing in a table that is not there. -/
theorem get_table_size (h : Heap) (k : Key) : (h.table h.tables.size).get k = .nil := by
  have hempty : h.table h.tables.size = .empty := by simp [table]
  rw [hempty]
  rfl

theorem lists_texts (short : texts.length < 2 ^ 63) :
    (Table.ofList (texts.map .ofString)).Lists (texts.map .ofString) :=
  .ofList (by simp [Val.ofString]) (by simpa using short)

/-- What decides whether a global variable can be bound. -/
theorem Accepts.congr (raw : (h'.table globals).get (.ofString name) =
      (h.table globals).get (.ofString name))
    (metatable : (h'.table globals).metatable = (h.table globals).metatable)
    (stand : ∀ id, (h'.table id).get metaNewIndex = (h.table id).get metaNewIndex)
    (accepts : h.Accepts name) : h'.Accepts name := by
  have hraw : h'.rawGet globals (.ofString name) = h.rawGet globals (.ofString name) := raw
  have hmeta : h'.metaField (.table globals) metaNewIndex =
      h.metaField (.table globals) metaNewIndex := by
    simp only [metaField, metatable, stand]
  rwa [Accepts, hraw, hmeta]

/-- A new table of texts keeps no global variable from being bound. -/
theorem Accepts.newTable (accepts : h.Accepts name) (short : texts.length < 2 ^ 63) :
    (h.newTable (.ofList (texts.map .ofString))).2.Accepts name := by
  have hglobals : (h.newTable (.ofList (texts.map .ofString))).2.table globals =
      h.table globals := by
    rw [table_newTable, if_neg h.globals_ne_size]
  refine accepts.congr (by rw [hglobals]) (by rw [hglobals]) fun id => ?_
  rw [table_newTable]
  split
  · rename_i hid
    rw [hid, get_table_size]
    exact (lists_texts short).get_of_index? rfl
  · rfl

/-- Publishing texts keeps no other global variable from being bound. -/
theorem Accepts.publish (accepts : h.Accepts name) (short : texts.length < 2 ^ 63)
    (ne : Key.ofString name ≠ .ofString other) (plain : metaNewIndex ≠ .ofString other) :
    (h.publish other texts).Accepts name := by
  have hglobals : (h.publish other texts).table globals =
      (h.table globals).set (.ofString other) (.table h.tables.size) := by
    rw [table_publish, if_pos rfl]
  refine accepts.congr ?_ ?_ fun id => ?_
  · rw [hglobals, Table.get_set, if_neg ne]
  · rw [hglobals, Table.metatable_set]
  · rw [table_publish]
    split
    · rename_i hid
      rw [hid, Table.get_set, if_neg plain]
    · split
      · rename_i hid
        rw [hid, get_table_size]
        exact (lists_texts short).get_of_index? rfl
      · rfl

/-- A global variable is bound to a table that holds these texts, at the indices from 1 on, and
nothing else. -/
structure Published (h : Heap) (name : String) (id : Nat) (texts : List String) : Prop where
  bound : h.rawGet globals (.ofString name) = .table id
  lists : (h.table id).Lists (texts.map .ofString)
  plain : (h.table id).metatable = none

/-- Texts that are published are there, in a new table. -/
theorem published_publish (h : Heap) (name : String) (short : texts.length < 2 ^ 63) :
    (h.publish name texts).Published name h.tables.size texts := by
  have hnew : (h.publish name texts).table h.tables.size = .ofList (texts.map .ofString) := by
    rw [table_publish, if_neg h.globals_ne_size.symm, if_pos rfl]
  refine ⟨?_, ?_, ?_⟩
  · show ((h.publish name texts).table globals).get (.ofString name) = .table h.tables.size
    rw [table_publish, if_pos rfl, Table.get_set, if_pos rfl]
  · rw [hnew]
    exact lists_texts short
  · rw [hnew]
    exact Table.metatable_ofList _

/-- Texts that are published stay when others are. -/
theorem Published.publish (published : h.Published name id texts) (here : id < h.tables.size)
    (inner : id ≠ globals) (ne : Key.ofString name ≠ .ofString other) (more : List String) :
    (h.publish other more).Published name id texts := by
  have hsame : (h.publish other more).table id = h.table id := by
    rw [table_publish, if_neg inner, if_neg (Nat.ne_of_lt here)]
  refine ⟨?_, ?_, ?_⟩
  · show ((h.publish other more).table globals).get (.ofString name) = .table id
    rw [table_publish, if_pos rfl, Table.get_set, if_neg ne]
    exact published.bound
  · rw [hsame]
    exact published.lists
  · rw [hsame]
    exact published.plain

end Heap

/-- Texts are published under a global variable that no metatable keeps from it. -/
theorem Routine.publishTexts_eq (accepts : h.Accepts name) (short : texts.length < 2 ^ 63) :
    Routine.publishTexts name texts h = .done () (h.publish name texts) :=
  store_global (accepts.newTable short) _

/-- Keys and other arguments are published if no metatable keeps their variables from them. -/
theorem Routine.publish_eq {keys args : List String} (acceptsKeys : h.Accepts "KEYS")
    (acceptsArgs : h.Accepts "ARGV") (shortKeys : keys.length < 2 ^ 63)
    (shortArgs : args.length < 2 ^ 63) :
    Routine.publish keys args h = .done () ((h.publish "KEYS" keys).publish "ARGV" args) := by
  have hargs : (h.publish "KEYS" keys).Accepts "ARGV" :=
    acceptsArgs.publish shortKeys (by decide) (by decide)
  show (Routine.publishTexts "KEYS" keys h).bind (fun _ => Routine.publishTexts "ARGV" args) = _
  rw [publishTexts_eq acceptsKeys shortKeys]
  exact publishTexts_eq hargs shortArgs

/-! ## Publishing that runs through -/

/-- Work that runs through has run through up to each of its parts. -/
theorem Outcome.exists_of_bind_eq_done {α β : Type} {o : Outcome α} {k : α → Heap → Outcome β}
    {b : β} {after : Heap} (done : o.bind k = .done b after) :
    ∃ a h, o = .done a h ∧ k a h = .done b after := by
  cases o with
  | done a h => exact ⟨a, h, rfl, done⟩
  | failed | calls => cases done

/-- Binding a key that runs through has changed one table, which may be another one further down the
metatables. -/
theorem Routine.exists_of_storeChain_eq_done {after : Heap} {fuel : Nat} :
    ∀ object, Routine.storeChain fuel object (.ofString name) v h = .done () after →
      ∃ id, after = h.modifyTable id fun t => t.set (.ofString name) v := by
  induction fuel with
  | zero =>
    intro object done
    cases done
  | succ fuel ih =>
    intro object done
    simp only [storeChain] at done
    split at done
    · split at done
      · cases done
      · cases done
      · cases done
        exact ⟨_, rfl⟩
      · exact ih _ done
      · cases done
        exact ⟨_, rfl⟩
    · cases done

/-- The arguments of a call are published at once: nothing fails, and no function of the script that
a metatable holds comes in between. -/
def Heap.Publishes (h : Heap) (keys args : List String) : Prop :=
  ∃ after, Routine.publish keys args h = .done () after

/-- What texts that are published at once have changed. -/
theorem Routine.exists_of_publishTexts_eq_done {after : Heap}
    (done : Routine.publishTexts name texts h = .done () after) :
    ∃ id, after = (h.newTable (.ofList (texts.map .ofString))).2.modifyTable id fun t =>
      t.set (.ofString name) (.table h.tables.size) :=
  exists_of_storeChain_eq_done _ done

/-- Keys and other arguments that are published at once are so one after the other. -/
theorem Routine.exists_of_publish_eq_done {after : Heap} {keys args : List String}
    (done : Routine.publish keys args h = .done () after) :
    ∃ between, Routine.publishTexts "KEYS" keys h = .done () between ∧
      Routine.publishTexts "ARGV" args between = .done () after := by
  obtain ⟨⟨⟩, between, hkeys, hargs⟩ := Outcome.exists_of_bind_eq_done done
  exact ⟨between, hkeys, hargs⟩

/-- Publishing at once makes no functions. -/
theorem Routine.closures_of_publish_eq_done {after : Heap} {keys args : List String}
    (done : Routine.publish keys args h = .done () after) : after.closures = h.closures := by
  obtain ⟨between, hkeys, hargs⟩ := exists_of_publish_eq_done done
  obtain ⟨_, rfl⟩ := exists_of_publishTexts_eq_done hkeys
  obtain ⟨_, rfl⟩ := exists_of_publishTexts_eq_done hargs
  rfl

end ScriptStore.Script
