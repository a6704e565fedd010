import ScriptStore.Proofs.Custom.Growth
import ScriptStore.Proofs.Script.Globals
import ScriptStore.Proofs.Value.Shape

/-!
# Values that come back

A value that a script is given and hands back may come back as another one: scripts know neither
booleans in replies nor `nil` in tables, and take an empty mapping for a list.

* `Value.Plain`, `Value.Normal` — nothing of that, right inside a value and everywhere in it.
* `Value.WellFormed` — what every value of the store is.
* `Table.entries_namedTable_iff`, `Table.mem_members_iff` — what a table of named values holds.
* `comes_back_iff` — **a value comes back from a script as it was exactly if it is normal and its
  containers nest no deeper than those of replies may**.
-/

namespace ScriptStore

open Script

/-! ## Normal values -/

namespace Value

/-- A value that does not change by itself on its way, apart from what is in its items: it is no
boolean and no empty mapping, and has no `nil` for an item or a member. -/
def Plain : Value → Prop
  | .boolean _ => False
  | .sequence items => .nil ∉ items
  | .mapping fields => fields ≠ [] ∧ ∀ field ∈ fields, field.2 ≠ .nil
  | _ => True

/-- A value that holds plain values only. -/
def Normal (v : Value) : Prop := v.Everywhere Plain

/-- A sequence has no more items than there are indices, and a mapping has sorted fields. -/
def Formed : Value → Prop
  | .sequence items => items.length < 2 ^ 63
  | .mapping fields => Fields.Sorted fields
  | _ => True

/-- A value that is well-formed everywhere. -/
def WellFormed (v : Value) : Prop := v.Everywhere Formed

end Value

/-! ## Tables -/

theorem Script.Key.ofString_inj {a b : String} : Key.ofString a = Key.ofString b ↔ a = b := by
  refine ⟨fun h => ?_, fun h => by rw [h]⟩
  have hbytes : bytes a = bytes b := Key.str.inj h
  rw [← Utf8.decode_encode a, ← Utf8.decode_encode b]
  exact congrArg Utf8.decode hbytes

namespace Script.Table

variable {t : Table} {vs : List Val} {ws : List (String × Val)} {name : String} {w : Val}
  {k : Key}

/-- The value at an index of a table that has been filled. -/
theorem item_fill (vs : List Val) {i : Nat} (hpos : 0 < i) (hlt : i < 2 ^ 63)
    (short : vs.length < 2 ^ 63) : (Table.empty.fill vs).item i = vs[i - 1]?.getD .nil := by
  induction vs using List.reverseRecOn with
  | nil => rfl
  | append_singleton vs v ih =>
    rw [List.length_append, List.length_singleton] at short
    rw [fill_snoc, item, get_set]
    have hint (n : Nat) (hn : n < 2 ^ 63) : (Int64.ofNat n).toInt = n :=
      Int64.toInt_ofNat_of_lt hn
    by_cases heq : i = vs.length + 1
    · subst heq
      rw [if_pos rfl]
      simp
    · have hne : (Key.int (Int64.ofNat i)) ≠ .int (Int64.ofNat (vs.length + 1)) := by
        intro h
        have hcast := congrArg Int64.toInt (Key.int.inj h)
        rw [hint i hlt, hint _ short] at hcast
        omega
      rw [if_neg hne]
      have hrest := ih (by omega)
      rw [item] at hrest
      rw [hrest]
      rcases Nat.lt_or_gt_of_ne heq with h | h
      · rw [List.getElem?_append_left (by omega)]
      · rw [List.getElem?_eq_none (by omega), List.getElem?_eq_none (by simp; omega)]

/-- The items of a table from an index on stand at the indices from there on, and are not `nil`. -/
theorem item_of_itemsFrom {fuel i j : Nat} (h : j < (t.itemsFrom fuel i).length) :
    t.item (i + j) ≠ .nil := by
  induction fuel generalizing i j with
  | zero => simp [itemsFrom] at h
  | succ fuel ih =>
    unfold itemsFrom at h
    split at h
    · simp at h
    · rename_i hv
      cases j with
      | zero => exact hv
      | succ j =>
        have hrest := ih (i := i + 1) (j := j) (by simpa using h)
        rwa [Nat.add_assoc, Nat.add_comm 1 j] at hrest

/-- A table that has been filled has as many items as it has been filled with only if none of them
is `nil`. -/
theorem solid_of_length_items (short : vs.length < 2 ^ 63)
    (h : (Table.empty.fill vs).items.length = vs.length) : ∀ v ∈ vs, v ≠ .nil := by
  intro v hv hnil
  obtain ⟨i, hi, rfl⟩ := List.mem_iff_getElem.mp hv
  have hlen : i < (Table.empty.fill vs).items.length := by rwa [h]
  have hitem : (Table.empty.fill vs).item (1 + i) ≠ .nil := item_of_itemsFrom hlen
  rw [item_fill vs (by omega) (by omega) short] at hitem
  simp [hi, hnil] at hitem

/-! ### Named values -/

/-- What a table holds once a value has been put under a key. -/
theorem entries_set_iff {t : Table} {k' : Key} {v : Val} :
    (t.set k' v).entries[k]? = some w ↔
      (k = k' ∧ w = v ∧ w ≠ .nil) ∨ (k ≠ k' ∧ t.entries[k]? = some w) := by
  by_cases hv : v = .nil
  · subst hv
    have herase : (t.set k' .nil).entries = t.entries.erase k' := rfl
    rw [herase, Std.TreeMap.getElem?_erase]
    simp only [Std.LawfulEqCmp.compare_eq_iff_eq, eq_comm (a := k')]
    split
    · rename_i hk
      simp [hk]
    · rename_i hk
      simp [hk]
  · rw [set_of_ne_nil hv, entries_insert, Std.TreeMap.getElem?_insert]
    simp only [Std.LawfulEqCmp.compare_eq_iff_eq, eq_comm (a := k')]
    split
    · rename_i hk
      simp only [hk, Option.some.injEq, true_and, ne_eq, not_true_eq_false, false_and, or_false]
      exact ⟨fun h => ⟨h.symm, h ▸ hv⟩, fun h => h.1.symm⟩
    · rename_i hk
      simp [hk]

/-- What a table of values with different names holds: all of them but `nil`. -/
theorem entries_namedTable_iff (distinct : Fields.Distinct ws) :
    (namedTable ws.reverse).entries[k]? = some w ↔
      w ≠ .nil ∧ ∃ name, k = .ofString name ∧ (name, w) ∈ ws := by
  induction ws with
  | nil =>
    have hempty : (namedTable ([] : List (String × Val)).reverse).entries[k]? = none := rfl
    rw [hempty]
    simp
  | cons first ws ih =>
    obtain ⟨name, v⟩ := first
    obtain ⟨hfresh, hrest⟩ := List.pairwise_cons.mp distinct
    rw [List.reverse_cons, namedTable_snoc, entries_set_iff, ih hrest]
    constructor
    · rintro (⟨rfl, rfl, hw⟩ | ⟨-, hw, name', rfl, hmem⟩)
      · exact ⟨hw, name, rfl, List.mem_cons_self ..⟩
      · exact ⟨hw, name', rfl, List.mem_cons_of_mem _ hmem⟩
    · rintro ⟨hw, name', rfl, hmem⟩
      rcases List.mem_cons.mp hmem with heq | hmem
      · cases heq
        exact .inl ⟨rfl, rfl, hw⟩
      · refine .inr ⟨fun h => hfresh _ hmem (Key.ofString_inj.mp h).symm, hw, name', rfl, hmem⟩

/-- The members of such a table. -/
theorem mem_members_iff (distinct : Fields.Distinct ws) :
    (name, w) ∈ (namedTable ws.reverse).members ↔ w ≠ .nil ∧ (name, w) ∈ ws := by
  have hname (text : String) : (Key.ofString text).fieldName? = some text :=
    congrArg some (Utf8.decode_encode text)
  rw [members, List.mem_filterMap]
  constructor
  · rintro ⟨⟨k, v⟩, hmem, hfield⟩
    rw [Std.TreeMap.mem_toList_iff_getElem?_eq_some, entries_namedTable_iff distinct] at hmem
    obtain ⟨hv, text, rfl, hmem⟩ := hmem
    rw [hname, Option.map_some] at hfield
    cases hfield
    exact ⟨hv, hmem⟩
  · rintro ⟨hw, hmem⟩
    refine ⟨(.ofString name, w), ?_, by rw [hname, Option.map_some]⟩
    rw [Std.TreeMap.mem_toList_iff_getElem?_eq_some, entries_namedTable_iff distinct]
    exact ⟨hw, name, rfl, hmem⟩

/-- No two members of such a table have the same name. -/
theorem distinct_members (distinct : Fields.Distinct ws) :
    Fields.Distinct (namedTable ws.reverse).members := by
  have hname (text : String) : (Key.ofString text).fieldName? = some text :=
    congrArg some (Utf8.decode_encode text)
  have hkeys := Std.TreeMap.distinct_keys_toList (t := (namedTable ws.reverse).entries)
  rw [Fields.Distinct, members, List.pairwise_filterMap]
  refine hkeys.imp_of_mem fun {a b} ha hb hne field hfield field' hfield' => ?_
  obtain ⟨k, v⟩ := a
  obtain ⟨k', v'⟩ := b
  rw [Std.TreeMap.mem_toList_iff_getElem?_eq_some, entries_namedTable_iff distinct] at ha hb
  obtain ⟨-, text, rfl, -⟩ := ha
  obtain ⟨-, text', rfl, -⟩ := hb
  rw [hname, Option.map_some] at hfield hfield'
  cases hfield
  cases hfield'
  -- keys with the same name would be the same key
  intro heq
  have htext : text = text' := heq
  subst htext
  exact hne Std.ReflCmp.compare_self

/-- Such a table is answered as a mapping exactly if it holds anything. -/
theorem isMapping_namedTable_iff (distinct : Fields.Distinct ws) :
    (namedTable ws.reverse).isMapping = true ↔ ∃ field ∈ ws, field.2 ≠ .nil := by
  have hitem : (namedTable ws.reverse).item 1 = .nil := by
    rw [item, get_eq]
    cases hentry : (namedTable ws.reverse).entries[(Key.int (Int64.ofNat 1))]? with
    | none => rfl
    | some w =>
      -- there is nothing under a key that is no name
      obtain ⟨-, text, hkey, -⟩ := (entries_namedTable_iff distinct).mp hentry
      cases hkey
  rw [isMapping, hitem]
  show (true && !(namedTable ws.reverse).entries.isEmpty) = true ↔ _
  rw [Bool.true_and, Bool.not_eq_true', Std.TreeMap.isEmpty_eq_false_iff_exists_mem]
  constructor
  · rintro ⟨k, hk⟩
    obtain ⟨w, hw⟩ := Option.isSome_iff_exists.mp (Std.TreeMap.isSome_getElem?_iff_mem.mpr hk)
    obtain ⟨hne, name, -, hmem⟩ := (entries_namedTable_iff distinct).mp hw
    exact ⟨_, hmem, hne⟩
  · rintro ⟨⟨name, w⟩, hmem, hne⟩
    refine ⟨.ofString name, Std.TreeMap.isSome_getElem?_iff_mem.mp ?_⟩
    rw [(entries_namedTable_iff distinct).mpr ⟨hne, name, rfl, hmem⟩]
    rfl

end Script.Table

/-! ## Replies that are tables -/

section Replies

variable {h : Heap} {d id : Nat} {items : List Value} {fields : List (String × Value)}

/-- A member as it is answered. -/
def memberToReply (h : Heap) (d : Nat) (member : String × Val) :
    Except ScriptFault (String × Value) :=
  (member.2.toReplyWithin h d).map (member.1, ·)

theorem memberToReply_eq_ok_iff {member : String × Val} {field : String × Value} :
    memberToReply h d member = .ok field ↔
      member.1 = field.1 ∧ member.2.toReplyWithin h d = .ok field.2 := by
  obtain ⟨name, v⟩ := field
  rw [memberToReply]
  cases member.2.toReplyWithin h d with
  | error e => simp [Except.map]
  | ok w => simp [Except.map]

theorem toReplyWithin_table (h : Heap) (d id : Nat) :
    (Val.table id).toReplyWithin h (d + 1) =
      if (h.table id).isMapping then
        ((h.table id).members.mapM (memberToReply h d)).map fun members =>
          .mapping (Fields.ofPairs members)
      else ((h.table id).items.mapM (Val.toReplyWithin h d)).map .sequence := by
  have hmember (p : String × Val) :
      (do return (p.1, ← p.2.toReplyWithin h d) : Except ScriptFault (String × Value)) =
        memberToReply h d p := by
    rw [memberToReply]
    cases p.2.toReplyWithin h d <;> rfl
  simp only [Val.toReplyWithin, hmember]
  split
  · cases (h.table id).members.mapM (memberToReply h d) <;> rfl
  · cases (h.table id).items.mapM (Val.toReplyWithin h d) <;> rfl

/-- When a table is answered as a sequence. -/
theorem toReplyWithin_eq_sequence_iff :
    (Val.table id).toReplyWithin h (d + 1) = .ok (.sequence items) ↔
      (h.table id).isMapping = false ∧
        (h.table id).items.map (Val.toReplyWithin h d) = items.map .ok := by
  rw [toReplyWithin_table, ← mapM_eq_ok_iff]
  split
  · rename_i hmapping
    cases (h.table id).members.mapM (memberToReply h d) <;> simp [Except.map, hmapping]
  · rename_i hmapping
    cases (h.table id).items.mapM (Val.toReplyWithin h d) <;> simp [Except.map, hmapping]

/-- When a table is answered as a mapping. -/
theorem toReplyWithin_eq_mapping_iff :
    (Val.table id).toReplyWithin h (d + 1) = .ok (.mapping fields) ↔
      (h.table id).isMapping = true ∧ ∃ pairs, Fields.ofPairs pairs = fields ∧
        (h.table id).members.map (memberToReply h d) = pairs.map .ok := by
  simp only [toReplyWithin_table, ← mapM_eq_ok_iff]
  split
  · rename_i hmapping
    cases (h.table id).members.mapM (memberToReply h d) <;> simp [Except.map, hmapping]
  · rename_i hmapping
    cases (h.table id).items.mapM (Val.toReplyWithin h d) <;> simp [Except.map, hmapping]

end Replies

/-! ## What values become -/

section Becomes

variable {h h' : Heap} {v : Value} {w : Val} {items : List Value} {fields : List (String × Value)}

/-- A value of a script is what a value of the store has become on the way to a heap. -/
def Value.Becomes (h : Heap) (v : Value) (w : Val) : Prop :=
  ∃ g, w = (v.toScript g).1 ∧ (v.toScript g).2.Gains h

theorem Value.Becomes.mono (becomes : v.Becomes h w) (gains : h.Gains h') : v.Becomes h' w := by
  obtain ⟨g, rfl, hgains⟩ := becomes
  exact ⟨g, rfl, hgains.trans gains⟩

theorem Value.Becomes.eq_nil_iff (becomes : v.Becomes h w) : w = .nil ↔ v = .nil := by
  obtain ⟨g, rfl, -⟩ := becomes
  exact v.toScript_eq_nil_iff g

theorem becomes_itemsToScript (items : List Value) (h : Heap) :
    List.Forall₂ (Value.Becomes (itemsToScript items h).2) items (itemsToScript items h).1 := by
  induction items generalizing h with
  | nil => exact .nil
  | cons item items ih =>
    exact .cons ⟨h, rfl, gains_itemsToScript items (item.toScript h).2⟩ (ih _)

/-- The entries for the members of a mapping are under their names. -/
theorem becomes_membersToScript (fields : List (String × Value)) (h : Heap) :
    ∃ ws, (membersToScript fields h).1 = namedTable ws.reverse ∧
      List.Forall₂ (fun field w => w.1 = field.1 ∧
        field.2.Becomes (membersToScript fields h).2 w.2) fields ws := by
  induction fields generalizing h with
  | nil => exact ⟨[], rfl, .nil⟩
  | cons field fields ih =>
    obtain ⟨name, v⟩ := field
    obtain ⟨ws, htable, hws⟩ := ih (v.toScript h).2
    refine ⟨(name, (v.toScript h).1) :: ws, ?_, .cons ⟨rfl, h, rfl, ?_⟩ hws⟩
    · rw [List.reverse_cons, namedTable_snoc, ← htable]
      rfl
    · exact gains_membersToScript fields (v.toScript h).2

/-- A sequence becomes a table that has been filled with what its items become. -/
theorem Value.Becomes.of_sequence (becomes : (Value.sequence items).Becomes h w) :
    ∃ id vs, w = .table id ∧ h.table id = Table.empty.fill vs ∧
      List.Forall₂ (Value.Becomes h) items vs := by
  obtain ⟨g, rfl, gains⟩ := becomes
  let before := (itemsToScript items g).2
  let t := Table.empty.fill (itemsToScript items g).1
  have hgains : (before.newTable t).2.Gains h := gains
  refine ⟨before.tables.size, (itemsToScript items g).1, rfl, ?_, ?_⟩
  · rw [hgains.table _ (by simp [Heap.newTable]), Heap.table_newTable, if_pos rfl]
  · exact (becomes_itemsToScript items g).imp fun _ _ h =>
      (h.mono (.newTable before t)).mono hgains

/-- A mapping becomes a table of what its members become, under their names. -/
theorem Value.Becomes.of_mapping (becomes : (Value.mapping fields).Becomes h w) :
    ∃ id ws, w = .table id ∧ h.table id = namedTable ws.reverse ∧
      List.Forall₂ (fun field w => w.1 = field.1 ∧ field.2.Becomes h w.2) fields ws := by
  obtain ⟨g, rfl, gains⟩ := becomes
  let before := (membersToScript fields g).2
  let t := (membersToScript fields g).1
  have hgains : (before.newTable t).2.Gains h := gains
  obtain ⟨ws, htable, hws⟩ := becomes_membersToScript fields g
  refine ⟨before.tables.size, ws, rfl, ?_, ?_⟩
  · rw [hgains.table _ (by simp [Heap.newTable]), Heap.table_newTable, if_pos rfl]
    exact htable
  · exact hws.imp fun _ _ h => ⟨h.1, (h.2.mono (.newTable before t)).mono hgains⟩

end Becomes

/-! ## Coming back -/

section Back

variable {h : Heap} {d : Nat} {items : List Value} {vs : List Val}
  {fields : List (String × Value)} {ws : List (String × Val)}

/-- Values come back as they were. -/
def Value.Returns (d : Nat) (v : Value) : Prop :=
  ∀ h w, v.Becomes h w → (w.toReplyWithin h d = .ok v ↔ v.Normal ∧ v.depth ≤ d)

/-- Items come back if each of them does. -/
theorem map_toReplyWithin_iff (become : List.Forall₂ (Value.Becomes h) items vs)
    (each : ∀ v ∈ items, v.Returns d) :
    vs.map (Val.toReplyWithin h d) = items.map .ok ↔ ∀ v ∈ items, v.Normal ∧ v.depth ≤ d := by
  induction become with
  | nil => simp
  | cons becomes rest ih =>
    obtain ⟨hfirst, hrest⟩ := List.forall_mem_cons.mp each
    rw [List.map_cons, List.map_cons, List.cons.injEq, ih hrest, hfirst _ _ becomes,
      List.forall_mem_cons]

/-- Nothing becomes `nil` but `nil`. -/
theorem solid_iff (become : List.Forall₂ (Value.Becomes h) items vs) :
    (∀ w ∈ vs, w ≠ .nil) ↔ .nil ∉ items := by
  induction become with
  | nil => simp
  | cons becomes rest ih =>
    rw [List.forall_mem_cons, ih, List.mem_cons, not_or, ne_eq, becomes.eq_nil_iff, eq_comm]

/-- A member has its entry. -/
theorem exists_of_mem_fields (become : List.Forall₂ (fun field w => w.1 = field.1 ∧
      field.2.Becomes h w.2) fields ws) {field : String × Value} (mem : field ∈ fields) :
    ∃ w, (field.1, w) ∈ ws ∧ field.2.Becomes h w := by
  induction become with
  | nil => cases mem
  | cons becomes rest ih =>
    rcases List.mem_cons.mp mem with rfl | mem
    · exact ⟨_, by rw [← becomes.1]; exact List.mem_cons_self .., becomes.2⟩
    · obtain ⟨w, hmem, hw⟩ := ih mem
      exact ⟨w, List.mem_cons_of_mem _ hmem, hw⟩

/-- An entry has its member. -/
theorem exists_of_mem_entries (become : List.Forall₂ (fun field w => w.1 = field.1 ∧
      field.2.Becomes h w.2) fields ws) {entry : String × Val} (mem : entry ∈ ws) :
    ∃ v, (entry.1, v) ∈ fields ∧ v.Becomes h entry.2 := by
  induction become with
  | nil => cases mem
  | cons becomes rest ih =>
    rcases List.mem_cons.mp mem with rfl | mem
    · exact ⟨_, by rw [becomes.1]; exact List.mem_cons_self .., becomes.2⟩
    · obtain ⟨v, hmem, hv⟩ := ih mem
      exact ⟨v, List.mem_cons_of_mem _ hmem, hv⟩

/-- Entries have the names of the members. -/
theorem distinct_entries (become : List.Forall₂ (fun field w => w.1 = field.1 ∧
      field.2.Becomes h w.2) fields ws) (distinct : Fields.Distinct fields) :
    Fields.Distinct ws := by
  induction become with
  | nil => exact List.Pairwise.nil
  | cons becomes rest ih =>
    obtain ⟨hfresh, hrest⟩ := List.pairwise_cons.mp distinct
    refine List.pairwise_cons.mpr ⟨fun entry hentry => ?_, ih hrest⟩
    obtain ⟨v, hmem, -⟩ := exists_of_mem_entries rest hentry
    rw [becomes.1]
    exact hfresh _ hmem

/-- A sequence comes back if none of its items is `nil` and each of them comes back. -/
theorem Value.returns_sequence (short : items.length < 2 ^ 63)
    (each : ∀ v ∈ items, v.Returns d) : (Value.sequence items).Returns (d + 1) := by
  intro h w becomes
  obtain ⟨id, vs, rfl, htable, hvs⟩ := becomes.of_sequence
  have hlength : vs.length = items.length := hvs.length_eq.symm
  have hnormal : (Value.sequence items).Normal ∧ (Value.sequence items).depth ≤ d + 1 ↔
      .nil ∉ items ∧ ∀ v ∈ items, v.Normal ∧ v.depth ≤ d := by
    rw [Normal, everywhere_sequence, depth_le_succ_iff]
    simp only [children, Plain, Normal]
    exact ⟨fun h => ⟨h.1.1, fun v hv => ⟨h.1.2 v hv, h.2 v hv⟩⟩,
      fun h => ⟨⟨h.1, fun v hv => (h.2 v hv).1⟩, fun v hv => (h.2 v hv).2⟩⟩
  rw [toReplyWithin_eq_sequence_iff, htable, hnormal, ← solid_iff hvs,
    ← map_toReplyWithin_iff hvs each]
  constructor
  · rintro ⟨-, hback⟩
    have hitems : (Table.empty.fill vs).items.length = vs.length := by
      rw [hlength, ← List.length_map (Val.toReplyWithin h d), hback, List.length_map]
    have hsolid := Table.solid_of_length_items (by omega) hitems
    have hlists : (Table.empty.fill vs).Lists vs := .fill rfl vs hsolid (by omega)
    rw [hlists.items hsolid (by omega)] at hback
    exact ⟨hsolid, hback⟩
  · rintro ⟨hsolid, hback⟩
    have hlists : (Table.empty.fill vs).Lists vs := .fill rfl vs hsolid (by omega)
    rw [hlists.items hsolid (by omega)]
    exact ⟨hlists.isMapping hsolid, hback⟩

/-- A mapping comes back if there is anything in it, none of its members is `nil`, and each of them
comes back. -/
theorem Value.returns_mapping (sorted : Fields.Sorted fields)
    (each : ∀ field ∈ fields, field.2.Returns d) : (Value.mapping fields).Returns (d + 1) := by
  intro h w becomes
  obtain ⟨id, ws, rfl, htable, hws⟩ := becomes.of_mapping
  have hdistinct := distinct_entries hws sorted.distinct
  have hnormal : (Value.mapping fields).Normal ∧ (Value.mapping fields).depth ≤ d + 1 ↔
      fields ≠ [] ∧ ∀ field ∈ fields, field.2 ≠ .nil ∧ field.2.Normal ∧ field.2.depth ≤ d := by
    rw [Normal, everywhere_mapping, depth_le_succ_iff]
    simp only [children, Plain, Normal, List.forall_mem_map]
    exact ⟨fun h => ⟨h.1.1.1, fun f hf => ⟨h.1.1.2 f hf, h.1.2 f hf, h.2 f hf⟩⟩,
      fun h => ⟨⟨⟨h.1, fun f hf => (h.2 f hf).1⟩, fun f hf => (h.2 f hf).2.1⟩,
        fun f hf => (h.2 f hf).2.2⟩⟩
  rw [toReplyWithin_eq_mapping_iff, htable, hnormal, Table.isMapping_namedTable_iff hdistinct]
  constructor
  · rintro ⟨⟨entry, hentry, -⟩, pairs, rfl, hback⟩
    obtain ⟨_, hsome, -⟩ := exists_of_mem_entries hws hentry
    refine ⟨List.ne_nil_of_mem hsome, fun field hfield => ?_⟩
    -- each member has come back, and what comes back under its name is its own entry
    have hpair : Except.ok field ∈ pairs.map (Except.ok (ε := ScriptFault)) :=
      List.mem_map_of_mem (Fields.mem_of_mem_ofPairs hfield)
    rw [← hback] at hpair
    obtain ⟨⟨name, w⟩, hmember, hreply⟩ := List.mem_map.mp hpair
    obtain ⟨hname, hreply⟩ := memberToReply_eq_ok_iff.mp hreply
    obtain ⟨hne, hmem⟩ := (Table.mem_members_iff hdistinct).mp hmember
    obtain ⟨w', hmem', hbecomes⟩ := exists_of_mem_fields hws hfield
    cases hname
    cases hdistinct.eq hmem hmem'
    exact ⟨fun hnil => hne (hbecomes.eq_nil_iff.mpr hnil),
      (each field hfield _ _ hbecomes).mp hreply⟩
  · rintro ⟨hsome, hfields⟩
    -- what an entry comes back as
    have hentry (entry : String × Val) (hentry : entry ∈ (namedTable ws.reverse).members) :
        ∃ v, (entry.1, v) ∈ fields ∧ memberToReply h d entry = .ok (entry.1, v) := by
      obtain ⟨-, hmem⟩ := (Table.mem_members_iff hdistinct).mp hentry
      obtain ⟨v, hfield, hbecomes⟩ := exists_of_mem_entries hws hmem
      obtain ⟨-, hback⟩ := hfields _ hfield
      exact ⟨v, hfield, memberToReply_eq_ok_iff.mpr ⟨rfl, (each _ hfield _ _ hbecomes).mpr hback⟩⟩
    choose! back hback using hentry
    let pairs := (namedTable ws.reverse).members.map fun entry => (entry.1, back entry)
    have hpairs : Fields.Distinct pairs :=
      List.pairwise_map.mpr (Table.distinct_members hdistinct)
    obtain ⟨field, hfirst⟩ := List.exists_mem_of_ne_nil fields hsome
    obtain ⟨w, hw, hbecomes⟩ := exists_of_mem_fields hws hfirst
    refine ⟨⟨_, hw, fun hnil => (hfields _ hfirst).1 (hbecomes.eq_nil_iff.mp hnil)⟩, pairs, ?_, ?_⟩
    · refine (Fields.sorted_ofPairs pairs).eq_of_mem_iff sorted fun field => ?_
      rw [Fields.mem_ofPairs_iff hpairs]
      constructor
      · intro hpair
        obtain ⟨entry, hentry, rfl⟩ := List.mem_map.mp hpair
        exact (hback entry hentry).1
      · intro hfield
        obtain ⟨w, hmem, hbecomes⟩ := exists_of_mem_fields hws hfield
        have hne : w ≠ .nil := fun hnil =>
          (hfields _ hfield).1 (hbecomes.eq_nil_iff.mp hnil)
        have hentry := (Table.mem_members_iff hdistinct).mpr ⟨hne, hmem⟩
        have hsame : back (field.1, w) = field.2 :=
          sorted.distinct.eq (hback _ hentry).1 hfield
        exact List.mem_map.mpr ⟨_, hentry, by rw [hsame]⟩
    · rw [List.map_map]
      exact List.map_congr_left fun entry hentry => (hback entry hentry).2

/-- Scalars come back, apart from booleans. -/
theorem Value.returns_scalar {v : Value} (plain : v.Plain) (scalar : v.children = [])
    (flat : v.depth = 0) (back : ∀ g h d, (v.toScript g).1.toReplyWithin h d = .ok v) (d : Nat) :
    v.Returns d := by
  intro h w becomes
  obtain ⟨g, rfl, -⟩ := becomes
  have hnormal : v.Normal := (everywhere_iff_of_scalar scalar).mpr plain
  exact iff_of_true (back g h d) ⟨hnormal, by omega⟩

/-- **A well-formed value comes back exactly if it is normal and nests no deeper than it may.** -/
theorem Value.returns (v : Value) : v.WellFormed → ∀ d, v.Returns d := by
  induction v using Value.of_children with
  | step v ih =>
    intro formed d
    obtain ⟨hformed, hbelow⟩ := everywhere_iff.mp formed
    cases v with
    | sequence items =>
      cases d with
      | zero =>
        intro h w becomes
        obtain ⟨id, vs, rfl, -⟩ := becomes.of_sequence
        simp [Val.toReplyWithin, depth]
      | succ d => exact returns_sequence hformed fun v hv => ih v hv (hbelow v hv) d
    | mapping fields =>
      cases d with
      | zero =>
        intro h w becomes
        obtain ⟨id, ws, rfl, -⟩ := becomes.of_mapping
        simp [Val.toReplyWithin, depth]
      | succ d =>
        refine returns_mapping hformed fun field hfield => ?_
        have hchild : field.2 ∈ (Value.mapping fields).children := List.mem_map_of_mem hfield
        exact ih _ hchild (hbelow _ hchild) d
    | nil =>
      exact returns_scalar (v := .nil) trivial rfl rfl (fun g h d => by cases d <;> rfl) d
    | integer n =>
      exact returns_scalar (v := .integer n) trivial rfl rfl (fun g h d => by cases d <;> rfl) d
    | float f =>
      exact returns_scalar (v := .float f) trivial rfl rfl (fun g h d => by cases d <;> rfl) d
    | text s =>
      exact returns_scalar (v := .text s) trivial rfl rfl
        (fun g h d => toReplyWithin_ofString h d s) d
    | boolean b =>
      intro h w becomes
      obtain ⟨g, rfl, -⟩ := becomes
      have hnot : ¬ (Value.boolean b).Normal := fun h => (everywhere_iff.mp h).1
      refine iff_of_false (fun hback => ?_) fun h => hnot h.1
      cases b <;> cases d <;> cases hback

end Back

/-- **A value comes back from a script as it was exactly if it is normal and has no more than 64
containers inside each other.** Normal values hold no boolean, no `nil` for an item or a member, and
no empty mapping. -/
theorem comes_back_iff {v : Value} (formed : v.WellFormed) (h : Heap) :
    (v.toScript h).1.toReply (v.toScript h).2 = .ok v ↔ v.Normal ∧ v.depth ≤ 64 :=
  v.returns formed 64 _ _ ⟨h, rfl, .refl _⟩

/-- A mapping of a sequence and a mapping comes back, and a sequence that begins with `nil` does
not. -/
theorem nested_comes_back_and_gapped_does_not :
    let nested : Value := .mapping
      [("a", .sequence [.integer 1, .float 0.5, .text "x"]),
        ("b", .mapping [("c", .sequence [])])]
    let gapped : Value := .sequence [.nil, .integer 1]
    (nested.toScript .initial).1.toReply (nested.toScript .initial).2 = .ok nested ∧
      (gapped.toScript .initial).1.toReply (gapped.toScript .initial).2 ≠ .ok gapped := by
  intro nested gapped
  have hnested : nested.WellFormed := by
    simp [nested, Value.WellFormed, Value.Formed, Fields.Sorted, -String.lt_iff_ltb]
  have hgapped : gapped.WellFormed := by
    simp [gapped, Value.WellFormed, Value.Formed]
  refine ⟨(comes_back_iff hnested .initial).mpr ⟨?_, ?_⟩, fun h => ?_⟩
  · simp [nested, Value.Normal, Value.Plain]
  · simp [nested, Value.depth, Value.itemsDepth, Value.fieldsDepth]
  · obtain ⟨hnormal, -⟩ := (comes_back_iff hgapped .initial).mp h
    exact (Value.everywhere_iff.mp hnormal).1 (List.mem_cons_self ..)

end ScriptStore
