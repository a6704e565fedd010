import Mathlib.Data.String.Basic
import Mathlib.Data.List.Induction
import Mathlib.Data.List.Pairwise
import ScriptStore.Value.Basic

/-!
# Fields in order

The members of a mapping are in the order of their names, and no two of them have the same name.

* `Fields.Sorted` — fields in that order.
* `Fields.sorted_ofPairs` — the fields that pairs give are so.
* `Fields.exists_mem_ofPairs_iff` — pairs give a field for each of their names.
* `Fields.mem_ofPairs_iff` — **pairs with different names are the fields that they give**, and
  `Fields.ofPairs_eq` — in order they are just these.
* `Fields.Agree.ofPairs_perm` — the fields that pairs give do not depend on the order of the pairs,
  if pairs with the same name have the same value.
* `Fields.length_ofPairs_eq_iff` — **pairs give as many fields as they are themselves only if their
  names are different**.
* `Fields.Sorted.eq_of_mem_iff` — sorted fields are told apart by their members.
-/

namespace ScriptStore.Fields

variable {α : Type} {fields others : Fields α} {pairs : List (String × α)} {name : String}
  {value : α} {field : String × α}

/-- Each name comes before those behind it. -/
def Sorted (fields : Fields α) : Prop := fields.Pairwise fun a b => a.1 < b.1

/-- No two of the pairs have the same name. -/
def Distinct (pairs : List (String × α)) : Prop := pairs.Pairwise fun a b => a.1 ≠ b.1

theorem Sorted.distinct (sorted : Sorted fields) : Distinct fields :=
  List.Pairwise.imp (fun h => ne_of_lt h) sorted

/-- Pairs with the same name are the same. -/
theorem Distinct.eq (distinct : Distinct pairs) {v w : α} (hv : (name, v) ∈ pairs)
    (hw : (name, w) ∈ pairs) : v = w := by
  by_contra hne
  have hpairs : (name, v) ≠ (name, w) := fun h => hne (congrArg Prod.snd h)
  have hsymm : Std.Symm fun a b : String × α => a.1 ≠ b.1 := ⟨fun _ _ h => h.symm⟩
  exact List.Pairwise.forall distinct hv hw hpairs rfl

/-- **Sorted fields are told apart by their members.** -/
theorem Sorted.eq_of_mem_iff (sorted : Sorted fields) (sorted' : Sorted others)
    (same : ∀ field, field ∈ fields ↔ field ∈ others) : fields = others := by
  have hnodup : fields.Nodup := sorted.distinct.imp fun h heq => h (congrArg Prod.fst heq)
  have hnodup' : others.Nodup := sorted'.distinct.imp fun h heq => h (congrArg Prod.fst heq)
  have hperm := (List.perm_ext_iff_of_nodup hnodup hnodup').mpr same
  exact hperm.eq_of_pairwise (fun _ _ _ _ h h' => (lt_asymm h h').elim) sorted sorted'

/-! ## Binding a name -/

theorem mem_insert (h : field ∈ insert name value fields) :
    field = (name, value) ∨ field ∈ fields := by
  induction fields with
  | nil => exact .inl (List.mem_singleton.mp h)
  | cons first rest ih =>
    obtain ⟨name', value'⟩ := first
    unfold insert at h
    split at h
    · exact (List.mem_cons.mp h).imp_right id
    · split at h
      · exact (List.mem_cons.mp h).imp_right (List.mem_cons_of_mem _)
      · rcases List.mem_cons.mp h with rfl | hrest
        · exact .inr (List.mem_cons_self ..)
        · exact (ih hrest).imp_right (List.mem_cons_of_mem _)

theorem Sorted.insert (sorted : Sorted fields) (name : String) (value : α) :
    Sorted (insert name value fields) := by
  induction fields with
  | nil => exact List.pairwise_singleton _ _
  | cons first rest ih =>
    obtain ⟨name', value'⟩ := first
    obtain ⟨hfirst, hrest⟩ := List.pairwise_cons.mp sorted
    unfold Fields.insert
    split
    · rename_i hlt
      refine List.pairwise_cons.mpr ⟨fun field hfield => ?_, sorted⟩
      rcases List.mem_cons.mp hfield with rfl | hfield
      · exact hlt
      · exact lt_trans hlt (hfirst field hfield)
    · split
      · rename_i heq
        subst heq
        exact List.pairwise_cons.mpr ⟨hfirst, hrest⟩
      · rename_i hnot hne
        refine List.pairwise_cons.mpr ⟨fun field hfield => ?_, ih hrest⟩
        rcases mem_insert hfield with rfl | hfield
        · exact lt_of_le_of_ne (not_lt.mp hnot) (Ne.symm hne)
        · exact hfirst field hfield

/-- A name that is not there joins the others. -/
theorem mem_insert_iff (fresh : ∀ field ∈ fields, field.1 ≠ name) :
    field ∈ insert name value fields ↔ field = (name, value) ∨ field ∈ fields := by
  refine ⟨mem_insert, fun h => ?_⟩
  induction fields with
  | nil => simpa [insert] using h
  | cons first rest ih =>
    obtain ⟨name', value'⟩ := first
    obtain ⟨hne, hrest⟩ := List.forall_mem_cons.mp fresh
    unfold insert
    split
    · exact List.mem_cons.mpr h
    · rw [if_neg (Ne.symm hne)]
      rcases h with rfl | hmem
      · exact List.mem_cons_of_mem _ (ih hrest (.inl rfl))
      · rcases List.mem_cons.mp hmem with rfl | hmem
        · exact List.mem_cons_self ..
        · exact List.mem_cons_of_mem _ (ih hrest (.inr hmem))

/-- Binding a name adds it to the names that are there. -/
theorem exists_mem_insert_iff {bound : String} :
    (∃ v, (bound, v) ∈ insert name value fields) ↔ bound = name ∨ ∃ v, (bound, v) ∈ fields := by
  induction fields with
  | nil => simp [insert]
  | cons first rest ih =>
    obtain ⟨name', value'⟩ := first
    unfold insert
    split
    · simp [exists_or]
    · split
      · rename_i heq
        subst heq
        simp [exists_or]
      · simp only [List.mem_cons, exists_or, ih, Prod.mk.injEq]
        exact or_left_comm

theorem mem_insert_self (name : String) (value : α) (fields : Fields α) :
    (name, value) ∈ insert name value fields := by
  induction fields with
  | nil => exact List.mem_singleton.mpr rfl
  | cons first rest ih =>
    unfold insert
    split
    · exact List.mem_cons_self ..
    · split
      · exact List.mem_cons_self ..
      · exact List.mem_cons_of_mem _ ih

/-- Binding a name adds one field, or none. -/
theorem length_insert_le : (insert name value fields).length ≤ fields.length + 1 := by
  induction fields with
  | nil => exact Nat.le_refl _
  | cons first rest ih =>
    obtain ⟨name', value'⟩ := first
    unfold insert
    split
    · exact Nat.le_refl _
    · split
      · simp
      · simpa using ih

/-- A name that is not there adds a field. -/
theorem length_insert_of_fresh (fresh : ∀ field ∈ fields, field.1 ≠ name) :
    (insert name value fields).length = fields.length + 1 := by
  induction fields with
  | nil => rfl
  | cons first rest ih =>
    obtain ⟨name', value'⟩ := first
    obtain ⟨hne, hrest⟩ := List.forall_mem_cons.mp fresh
    unfold insert
    split
    · rfl
    · rw [if_neg (Ne.symm hne), List.length_cons, ih hrest, List.length_cons]

/-- No other name does. -/
theorem fresh_of_length_insert (sorted : Sorted fields)
    (more : (insert name value fields).length = fields.length + 1) :
    ∀ field ∈ fields, field.1 ≠ name := by
  induction fields with
  | nil => simp
  | cons first rest ih =>
    obtain ⟨name', value'⟩ := first
    obtain ⟨hfirst, hrest⟩ := List.pairwise_cons.mp sorted
    unfold insert at more
    split at more
    · rename_i hlt
      intro field hfield heq
      rcases List.mem_cons.mp hfield with rfl | hfield
      · exact (ne_of_lt hlt) heq.symm
      · exact lt_asymm hlt (heq ▸ hfirst field hfield)
    · split at more
      · simp at more
      · rename_i hne
        intro field hfield
        rcases List.mem_cons.mp hfield with rfl | hfield
        · exact Ne.symm hne
        · exact ih hrest (by simpa using more) field hfield

/-! ## Pairs -/

theorem ofPairs_snoc (pairs : List (String × α)) (field : String × α) :
    ofPairs (pairs ++ [field]) = insert field.1 field.2 (ofPairs pairs) := by
  simp [ofPairs, List.foldl_append]

theorem sorted_ofPairs (pairs : List (String × α)) : Sorted (ofPairs pairs) := by
  induction pairs using List.reverseRecOn with
  | nil => exact List.Pairwise.nil
  | append_singleton pairs field ih =>
    rw [ofPairs_snoc]
    exact ih.insert _ _

theorem mem_of_mem_ofPairs (h : field ∈ ofPairs pairs) : field ∈ pairs := by
  induction pairs using List.reverseRecOn with
  | nil => exact h
  | append_singleton pairs last ih =>
    rw [ofPairs_snoc] at h
    rcases mem_insert h with rfl | h
    · exact List.mem_append_right _ (List.mem_singleton.mpr rfl)
    · exact List.mem_append_left _ (ih h)

/-- **Pairs with different names are the fields that they give.** -/
theorem mem_ofPairs_iff (distinct : Distinct pairs) : field ∈ ofPairs pairs ↔ field ∈ pairs := by
  refine ⟨mem_of_mem_ofPairs, fun h => ?_⟩
  induction pairs using List.reverseRecOn with
  | nil => exact h
  | append_singleton pairs last ih =>
    obtain ⟨hpairs, -, hfresh⟩ := List.pairwise_append.mp distinct
    have hlast : ∀ field ∈ ofPairs pairs, field.1 ≠ last.1 := fun field hfield =>
      hfresh field (mem_of_mem_ofPairs hfield) last (List.mem_singleton.mpr rfl)
    rw [ofPairs_snoc, mem_insert_iff hlast]
    rcases List.mem_append.mp h with h | h
    · exact .inr (ih hpairs h)
    · exact .inl (List.mem_singleton.mp h)

/-- Pairs give a field for each of their names. -/
theorem exists_mem_ofPairs_iff : (∃ v, (name, v) ∈ ofPairs pairs) ↔ ∃ v, (name, v) ∈ pairs := by
  induction pairs using List.reverseRecOn with
  | nil => rfl
  | append_singleton pairs last ih =>
    obtain ⟨name', value'⟩ := last
    rw [ofPairs_snoc, exists_mem_insert_iff, ih]
    simp only [List.mem_append, List.mem_singleton, exists_or, Prod.mk.injEq]
    rw [or_comm]
    simp

/-- Pairs with the same name have the same value. -/
def Agree (pairs : List (String × α)) : Prop :=
  ∀ name v w, (name, v) ∈ pairs → (name, w) ∈ pairs → v = w

/-- Pairs that agree are the fields that they give. -/
theorem Agree.mem_ofPairs_iff (agree : Agree pairs) : field ∈ ofPairs pairs ↔ field ∈ pairs := by
  refine ⟨mem_of_mem_ofPairs, fun h => ?_⟩
  obtain ⟨v, hv⟩ := exists_mem_ofPairs_iff.mpr ⟨field.2, h⟩
  have hvalue : v = field.2 := agree _ _ _ (mem_of_mem_ofPairs hv) h
  rwa [hvalue] at hv

/-- **The fields that pairs give do not depend on the order of the pairs, if these agree.** -/
theorem Agree.ofPairs_perm {pairs' : List (String × α)} (agree : Agree pairs)
    (perm : pairs.Perm pairs') : ofPairs pairs = ofPairs pairs' := by
  have agree' : Agree pairs' := by
    intro name v w hv hw
    exact agree name v w (perm.mem_iff.mpr hv) (perm.mem_iff.mpr hw)
  apply (sorted_ofPairs pairs).eq_of_mem_iff (sorted_ofPairs pairs')
  intro field
  rw [agree.mem_ofPairs_iff, agree'.mem_ofPairs_iff, perm.mem_iff]

/-- The last pair is there as it is. -/
theorem mem_ofPairs_snoc (pairs : List (String × α)) (field : String × α) :
    field ∈ ofPairs (pairs ++ [field]) := by
  rw [ofPairs_snoc]
  exact mem_insert_self _ _ _

theorem length_ofPairs_le (pairs : List (String × α)) : (ofPairs pairs).length ≤ pairs.length := by
  induction pairs using List.reverseRecOn with
  | nil => exact Nat.le_refl _
  | append_singleton pairs last ih =>
    have hinsert : (insert last.1 last.2 (ofPairs pairs)).length ≤ (ofPairs pairs).length + 1 :=
      length_insert_le
    rw [ofPairs_snoc, List.length_append, List.length_singleton]
    omega

/-- **Pairs give as many fields as they are themselves only if their names are different.** -/
theorem length_ofPairs_eq_iff : (ofPairs pairs).length = pairs.length ↔ Distinct pairs := by
  induction pairs using List.reverseRecOn with
  | nil => exact iff_of_true rfl List.Pairwise.nil
  | append_singleton pairs last ih =>
    have hpairs := length_ofPairs_le pairs
    have hinsert : (insert last.1 last.2 (ofPairs pairs)).length ≤ (ofPairs pairs).length + 1 :=
      length_insert_le
    rw [ofPairs_snoc, List.length_append, List.length_singleton]
    constructor
    · intro hlength
      have hmore : (insert last.1 last.2 (ofPairs pairs)).length = (ofPairs pairs).length + 1 := by
        omega
      have hfresh := fresh_of_length_insert (sorted_ofPairs pairs) hmore
      apply List.pairwise_append.mpr
      refine ⟨ih.mp (by omega), List.pairwise_singleton _ _, ?_⟩
      intro field hfield last' hlast
      obtain ⟨v, hmem⟩ := exists_mem_ofPairs_iff.mpr ⟨field.2, hfield⟩
      rw [List.mem_singleton.mp hlast]
      exact hfresh (field.1, v) hmem
    · intro distinct
      obtain ⟨hdistinct, -, hfresh⟩ := List.pairwise_append.mp distinct
      have hlength := ih.mpr hdistinct
      have hnew : ∀ field ∈ ofPairs pairs, field.1 ≠ last.1 := by
        intro field hfield
        exact hfresh field (mem_of_mem_ofPairs hfield) last (List.mem_singleton.mpr rfl)
      rw [length_insert_of_fresh hnew, hlength]

/-- **Pairs in the order of their names are fields.** -/
theorem ofPairs_eq (sorted : Sorted fields) : ofPairs fields = fields :=
  (sorted_ofPairs fields).eq_of_mem_iff sorted fun _ => mem_ofPairs_iff sorted.distinct

/-- A name after all others joins at the end. -/
theorem Sorted.insert_last (sorted : Sorted (fields ++ [field])) :
    Fields.insert field.1 field.2 fields = fields ++ [field] := by
  have hfields : Sorted fields := (List.pairwise_append.mp sorted).1
  rw [← ofPairs_eq sorted, ofPairs_snoc, ofPairs_eq hfields]

end ScriptStore.Fields
