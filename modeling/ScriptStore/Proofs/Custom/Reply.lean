import Mathlib
import ScriptStore.Proofs.Custom.Normal

/-!
# What a table is answered as

A table is a list or a mapping, and which of the two is seen from its entries alone.

* `Table.Runs` — how many items stand in a row from index 1 on; `Table.runs_items` — **the items of
  a table are all of these**, and `Table.mem_items_iff` says so of one item.
* `Table.convertInWords_eq` — an index of 32 bits takes in all items of a table that has no more of
  them than such indices; `Val.toReplyWithin_list_in_words` — so a list is answered in the same way.
* `Val.toReplyWithin_cases` — a conversion has no other failure than too many tables inside each
  other.
* `Val.AnsweredAs` — the shape of a reply, from the entries of the tables that it is made of.
* `shape_of_reply` — **a reply has this shape, down to the innermost table, and metatables play no
  part in it**.
-/

namespace ScriptStore

open Script

variable {h h' : Heap} {t t' : Table} {v : Val} {w : Value} {d i j n fuel id : Nat} {name : String}

/-! ## Items -/

namespace Script.Table

/-- All indices from 1 to `n` hold something. -/
def Leads (t : Table) (n : Nat) : Prop := ∀ i, 0 < i → i ≤ n → t.item i ≠ .nil

/-- Exactly `n` items stand in a row from index 1 on: there is none behind them, unless no index at
all is free. -/
structure Runs (t : Table) (n : Nat) : Prop where
  leads : t.Leads n
  ends : (∃ i, 0 < i ∧ t.item i = .nil) → t.item (n + 1) = .nil

theorem Leads.mono (leads : t.Leads n) (le : i ≤ n) : t.Leads i := by
  intro j pos hj
  exact leads j pos (Nat.le_trans hj le)

/-- Indices are words of 64 bits. -/
theorem item_congr (t : Table) (same : i % 2 ^ 64 = j % 2 ^ 64) : t.item i = t.item j := by
  have hindex : Int64.ofNat i = Int64.ofNat j := by
    apply Int64.toBitVec_inj.mp
    apply BitVec.eq_of_toNat_eq
    simpa using same
  rw [item, item, hindex]

/-- The keys of different indices are different. -/
theorem ofNat_injective_of_le (hi : 0 < i) (hj : 0 < j) (hi' : i ≤ 2 ^ 64) (hj' : j ≤ 2 ^ 64)
    (same : Int64.ofNat i = Int64.ofNat j) : i = j := by
  have hwords := congrArg (fun n : Int64 => n.toBitVec.toNat) same
  simp at hwords
  omega

theorem mem_keys_of_item (held : t.item i ≠ .nil) : Key.int (Int64.ofNat i) ∈ t.entries.keys := by
  rw [Std.TreeMap.mem_keys, ← Std.TreeMap.isSome_getElem?_iff_mem]
  rw [item, get_eq] at held
  cases hentry : t.entries[Key.int (Int64.ofNat i)]? with
  | none => simp [hentry] at held
  | some v => rfl

/-- There are no more items in a row than entries. -/
theorem Leads.le_size (leads : t.Leads n) (hn : n ≤ 2 ^ 64) : n ≤ t.entries.size := by
  let key (i : Nat) : Key := .int (Int64.ofNat (i + 1))
  have hnodup : ((List.range n).map key).Nodup := by
    apply List.Nodup.map_on _ List.nodup_range
    intro i hi j hj same
    rw [List.mem_range] at hi hj
    have hsucc := ofNat_injective_of_le (Nat.succ_pos i) (Nat.succ_pos j) (by omega) (by omega)
      (Key.int.inj same)
    omega
  have hsubset : (List.range n).map key ⊆ t.entries.keys := by
    intro k hk
    obtain ⟨i, hi, rfl⟩ := List.mem_map.mp hk
    rw [List.mem_range] at hi
    exact mem_keys_of_item (leads (i + 1) (Nat.succ_pos i) (by omega))
  have hlength := (List.subperm_of_subset hnodup hsubset).length_le
  simpa using hlength

theorem itemsFrom_succ (held : t.item n ≠ .nil) :
    t.itemsFrom (fuel + 1) n = t.item n :: t.itemsFrom fuel (n + 1) := by
  rw [itemsFrom]
  split
  · contradiction
  · rfl

theorem getElem_itemsFrom (hj : j < (t.itemsFrom fuel i).length) :
    (t.itemsFrom fuel i)[j] = t.item (i + j) := by
  induction fuel generalizing i j with
  | zero => simp [itemsFrom] at hj
  | succ fuel ih =>
    cases hv : t.item i with
    | nil => simp [itemsFrom, hv] at hj
    | _ =>
      simp only [itemsFrom, hv] at hj ⊢
      cases j with
      | zero => simp [hv]
      | succ j =>
        rw [List.getElem_cons_succ, ih]
        congr 1
        omega

theorem getElem_items (hj : j < t.items.length) : t.items[j] = t.item (j + 1) := by
  have hitem := getElem_itemsFrom hj
  rwa [Nat.add_comm] at hitem

/-- A row of items is read to its end. -/
theorem le_length_itemsFrom (held : ∀ j < n, t.item (i + j) ≠ .nil) (fits : n ≤ fuel) :
    n ≤ (t.itemsFrom fuel i).length := by
  induction fuel generalizing i n with
  | zero => omega
  | succ fuel ih =>
    cases n with
    | zero => exact Nat.zero_le _
    | succ n =>
      have hfirst : t.item i ≠ .nil := held 0 (Nat.succ_pos n)
      have hrest : n ≤ (t.itemsFrom fuel (i + 1)).length := by
        apply ih _ (by omega)
        intro j hj
        have hnext := held (j + 1) (by omega)
        rwa [show i + 1 + j = i + (j + 1) by omega]
      rw [itemsFrom_succ hfirst]
      exact Nat.succ_le_succ hrest

theorem Leads.le_length (leads : t.Leads n) (hn : n ≤ 2 ^ 64) : n ≤ t.items.length := by
  apply le_length_itemsFrom _ (leads.le_size hn)
  intro j hj
  exact leads (1 + j) (by omega) (by omega)

theorem leads_items (t : Table) : t.Leads t.items.length := by
  intro i pos le
  have hlt : i - 1 < t.items.length := by omega
  have hitem := item_of_itemsFrom hlt
  rwa [show 1 + (i - 1) = i by omega] at hitem

/-- A table has no more items than entries. -/
theorem length_items_le (t : Table) : t.items.length ≤ t.entries.size := by
  have hlength : ∀ fuel i : Nat, (t.itemsFrom fuel i).length ≤ fuel := by
    intro fuel
    induction fuel with
    | zero => simp [itemsFrom]
    | succ fuel ih =>
      intro i
      unfold itemsFrom
      split
      · simp
      · simpa using ih (i + 1)
  exact hlength t.entries.size 1

/-- The place among the first `2 ^ 64` indices that names the same word. -/
theorem item_wrap (t : Table) (pos : 0 < i) : t.item ((i - 1) % 2 ^ 64 + 1) = t.item i := by
  apply item_congr
  omega

/-- **The items of a table are all that stand in a row from index 1 on.** -/
theorem runs_items (t : Table) : t.Runs t.items.length where
  leads := t.leads_items
  ends := by
    rintro ⟨i, pos, free⟩
    by_contra hmore
    have hleads : t.Leads (t.items.length + 1) := by
      intro j hj hle
      rcases Nat.lt_or_ge t.items.length j with hlt | hge
      · rwa [show j = t.items.length + 1 by omega]
      · exact t.leads_items j hj hge
    rcases Nat.lt_or_ge (2 ^ 64) (t.items.length + 1) with hfull | hfits
    · -- all words are taken, and `i` is one of them
      have hheld := hleads ((i - 1) % 2 ^ 64 + 1) (Nat.succ_pos _) (by omega)
      rw [t.item_wrap pos] at hheld
      exact hheld free
    · have hlonger := hleads.le_length hfits
      omega

/-- An item of a table stands in the row from index 1 on. -/
theorem mem_items_iff : v ∈ t.items ↔ ∃ i, 0 < i ∧ t.Leads i ∧ t.item i = v := by
  constructor
  · intro hv
    obtain ⟨j, hj, rfl⟩ := List.mem_iff_getElem.mp hv
    exact ⟨j + 1, Nat.succ_pos j, t.leads_items.mono hj, (getElem_items hj).symm⟩
  · rintro ⟨i, pos, leads, rfl⟩
    have hwrapped : (i - 1) % 2 ^ 64 + 1 ≤ t.items.length :=
      (leads.mono (by omega)).le_length (by omega)
    rw [← t.item_wrap pos, ← getElem_items hwrapped]
    exact List.getElem_mem _

/-! ## Items under an index of 32 bits -/

/-- Converts the items of a table from an index on, up to the first gap. The index is a word of 32
bits, and nothing comes of a table with an item at the largest one. -/
def convertInWords {ε : Type} (t : Table) (f : Val → Except ε Value) :
    Nat → Int32 → Option (Except ε (List Value))
  | 0, _ => some (.ok [])
  | fuel + 1, index =>
    match t.get (.int index.toInt64) with
    | .nil => some (.ok [])
    | v =>
      match f v with
      | .error e => some (.error e)
      | .ok w =>
        if index = Int32.maxValue then none
        else (convertInWords t f fuel (index + 1)).map fun rest => rest.map fun ws => w :: ws

theorem get_toInt64 (t : Table) (hn : n < 2 ^ 31) :
    t.get (.int (Int32.ofNat n).toInt64) = t.item n := by
  have hindex : (Int32.ofNat n).toInt64 = Int64.ofNat n := by
    apply Int64.toInt_inj.mp
    rw [Int32.toInt_toInt64, Int32.toInt_ofNat_of_lt hn, Int64.toInt_ofNat_of_lt (by omega)]
  rw [hindex, item]

/-- **An index of 32 bits takes in all items**, if there are fewer of them than such indices. -/
theorem convertInWords_eq {ε : Type} (t : Table) (f : Val → Except ε Value) :
    ∀ fuel n : Nat, n + (t.itemsFrom fuel n).length < 2 ^ 31 →
      t.convertInWords f fuel (Int32.ofNat n) = some ((t.itemsFrom fuel n).mapM f) := by
  intro fuel
  induction fuel with
  | zero => intro n _; rfl
  | succ fuel ih =>
    intro n short
    have hget := t.get_toInt64 (show n < 2 ^ 31 by omega)
    rw [convertInWords, hget]
    split
    · rename_i free
      rw [itemsFrom, free]
      rfl
    · rename_i held
      rw [itemsFrom_succ held] at short ⊢
      rw [List.length_cons] at short
      rw [List.mapM_cons]
      cases hv : f (t.item n) with
      | error e => rfl
      | ok w =>
        have hmax : Int32.ofNat n ≠ Int32.maxValue := by
          intro h
          have hn := congrArg Int32.toInt h
          rw [Int32.toInt_ofNat_of_lt (by omega)] at hn
          have hlast : Int32.maxValue.toInt = 2 ^ 31 - 1 := by decide
          omega
        have hnext : Int32.ofNat n + 1 = Int32.ofNat (n + 1) := (Int32.ofNat_add n 1).symm
        simp only [if_neg hmax, hnext, ih (n + 1) (by omega)]
        cases (t.itemsFrom fuel (n + 1)).mapM f <;> rfl

/-! ## Entries -/

theorem isMapping_iff : t.isMapping = true ↔ t.item 1 = .nil ∧ t.entries.isEmpty = false := by
  have hnil : (t.item 1).isNil = true ↔ t.item 1 = .nil := by
    cases t.item 1 <;> simp [Val.isNil]
  rw [isMapping, Bool.and_eq_true, hnil, Bool.not_eq_true']

theorem not_isMapping_iff :
    t.isMapping = false ↔ t.entries.isEmpty = true ∨ t.item 1 ≠ .nil := by
  rw [← Bool.not_eq_true, isMapping_iff, not_and_or, Bool.not_eq_false, or_comm]

/-- The members of a mapping are its entries under keys that have a name. -/
theorem mem_members_iff_exists_key : (name, v) ∈ t.members ↔
    ∃ k : Key, t.entries[k]? = some v ∧ k.fieldName? = some name := by
  rw [members, List.mem_filterMap]
  constructor
  · rintro ⟨⟨k, v'⟩, hmem, hfield⟩
    obtain ⟨name', hname, heq⟩ := Option.map_eq_some_iff.mp hfield
    cases heq
    exact ⟨k, Std.TreeMap.mem_toList_iff_getElem?_eq_some.mp hmem, hname⟩
  · rintro ⟨k, hentry, hname⟩
    exact ⟨(k, v), Std.TreeMap.mem_toList_iff_getElem?_eq_some.mpr hentry, by simp [hname]⟩

theorem item_congr_entries (same : t'.entries = t.entries) (i : Nat) : t'.item i = t.item i := by
  rw [item, item, get, get, same]

theorem items_congr (same : t'.entries = t.entries) : t'.items = t.items := by
  have hfrom : ∀ fuel i : Nat, t'.itemsFrom fuel i = t.itemsFrom fuel i := by
    intro fuel
    induction fuel with
    | zero => intro i; rfl
    | succ fuel ih =>
      intro i
      simp only [itemsFrom, item_congr_entries same, ih]
  rw [items, items, same, hfrom]

end Script.Table

/-! ## Conversions -/

/-- A list of conversions all of which fail alike succeeds throughout or fails in one of them. -/
theorem mapM_cases {α β ε : Type} {f : α → Except ε β} {e : ε} {l : List α}
    (each : ∀ a ∈ l, (∃ b, f a = .ok b) ∨ f a = .error e) :
    (∃ bs, l.mapM f = .ok bs) ∨ l.mapM f = .error e ∧ ∃ a ∈ l, f a = .error e := by
  induction l with
  | nil => exact .inl ⟨[], rfl⟩
  | cons a l ih =>
    obtain ⟨hfirst, hrest⟩ := List.forall_mem_cons.mp each
    rw [List.mapM_cons]
    rcases hfirst with ⟨b, hb⟩ | he
    · rw [hb]
      rcases ih hrest with ⟨bs, hbs⟩ | ⟨hbs, a', ha', he⟩
      · rw [hbs]
        exact .inl ⟨b :: bs, rfl⟩
      · rw [hbs]
        exact .inr ⟨rfl, a', List.mem_cons_of_mem _ ha', he⟩
    · rw [he]
      exact .inr ⟨rfl, a, List.mem_cons_self .., he⟩

/-- Such a list fails exactly if one of its conversions does. -/
theorem mapM_eq_error_iff {α β ε : Type} {f : α → Except ε β} {e : ε} {l : List α}
    (each : ∀ a ∈ l, (∃ b, f a = .ok b) ∨ f a = .error e) :
    l.mapM f = .error e ↔ ∃ a ∈ l, f a = .error e := by
  rcases mapM_cases each with ⟨bs, hok⟩ | ⟨herror, hfails⟩
  · apply iff_of_false
    · rw [hok]
      simp
    · rintro ⟨a, ha, he⟩
      have hmap := List.mem_map_of_mem (f := f) ha
      rw [mapM_eq_ok_iff.mp hok, he] at hmap
      simp at hmap
  · exact iff_of_true herror hfails

/-- The results of conversions that succeed. -/
theorem mem_iff_of_mapM {α β ε : Type} {f : α → Except ε β} {l : List α} {bs : List β}
    (ok : l.mapM f = .ok bs) {b : β} : b ∈ bs ↔ ∃ a ∈ l, f a = .ok b := by
  rw [← List.mem_map, mapM_eq_ok_iff.mp ok]
  simp

theorem memberToReply_eq_error_iff {member : String × Val} {e : ScriptFault} :
    memberToReply h d member = .error e ↔ member.2.toReplyWithin h d = .error e := by
  rw [memberToReply]
  cases member.2.toReplyWithin h d <;> simp [Except.map]

theorem memberToReply_of_cases {member : String × Val} {e : ScriptFault}
    (cases : (∃ w, member.2.toReplyWithin h d = .ok w) ∨ member.2.toReplyWithin h d = .error e) :
    (∃ field, memberToReply h d member = .ok field) ∨ memberToReply h d member = .error e := by
  apply cases.imp
  · rintro ⟨w, hok⟩
    exact ⟨(member.1, w), memberToReply_eq_ok_iff.mpr ⟨rfl, hok⟩⟩
  · exact memberToReply_eq_error_iff.mpr

namespace Script.Val

/-- **A conversion fails in one way only.** -/
theorem toReplyWithin_cases (h : Heap) (d : Nat) (v : Val) :
    (∃ w, v.toReplyWithin h d = .ok w) ∨ v.toReplyWithin h d = .error .replyTooDeep := by
  induction d generalizing v with
  | zero =>
    cases v with
    | table id => exact .inr rfl
    | bool b => cases b <;> exact .inl ⟨_, rfl⟩
    | _ => exact .inl ⟨_, rfl⟩
  | succ d ih =>
    cases v with
    | table id =>
      rw [toReplyWithin_table]
      split
      · rcases mapM_cases (l := (h.table id).members) fun member _ =>
          memberToReply_of_cases (ih member.2) with ⟨fields, hok⟩ | ⟨herror, -⟩
        · rw [hok]
          exact .inl ⟨_, rfl⟩
        · rw [herror]
          exact .inr rfl
      · rcases mapM_cases (l := (h.table id).items) fun v _ => ih v with
          ⟨items, hok⟩ | ⟨herror, -⟩
        · rw [hok]
          exact .inl ⟨_, rfl⟩
        · rw [herror]
          exact .inr rfl
    | bool b => cases b <;> exact .inl ⟨_, rfl⟩
    | _ => exact .inl ⟨_, rfl⟩

/-- A conversion reads nothing of a table but its entries. -/
theorem toReplyWithin_congr (same : ∀ id, (h'.table id).entries = (h.table id).entries) (d : Nat)
    (v : Val) : v.toReplyWithin h' d = v.toReplyWithin h d := by
  induction d generalizing v with
  | zero =>
    cases v with
    | bool b => cases b <;> rfl
    | _ => rfl
  | succ d ih =>
    cases v with
    | table id =>
      have hitems := Table.items_congr (same id)
      have hmembers : (h'.table id).members = (h.table id).members := by
        rw [Table.members, Table.members, same id]
      have hmapping : (h'.table id).isMapping = (h.table id).isMapping := by
        rw [Table.isMapping, Table.isMapping, Table.item_congr_entries (same id), same id]
      have hwithin : toReplyWithin h' d = toReplyWithin h d := funext ih
      have hmember : memberToReply h' d = memberToReply h d := by
        funext member
        rw [memberToReply, memberToReply, hwithin]
      rw [toReplyWithin_table, toReplyWithin_table, hitems, hmembers, hmapping, hwithin, hmember]
    | bool b => cases b <;> rfl
    | _ => rfl

/-- A table that is answered is a list of its items or a mapping of its members. -/
theorem toReplyWithin_table_cases (ok : (Val.table id).toReplyWithin h (d + 1) = .ok w) :
    (∃ items, w = .sequence items ∧ (h.table id).isMapping = false ∧
        (h.table id).items.mapM (toReplyWithin h d) = .ok items) ∨
      ∃ pairs, w = .mapping (Fields.ofPairs pairs) ∧ (h.table id).isMapping = true ∧
        (h.table id).members.mapM (memberToReply h d) = .ok pairs := by
  rw [toReplyWithin_table] at ok
  split at ok
  · rename_i hmapping
    cases hmembers : (h.table id).members.mapM (memberToReply h d) with
    | error e => rw [hmembers] at ok; cases ok
    | ok pairs =>
      rw [hmembers] at ok
      cases ok
      exact .inr ⟨pairs, rfl, hmapping, rfl⟩
  · rename_i hlist
    rw [Bool.not_eq_true] at hlist
    cases hitems : (h.table id).items.mapM (toReplyWithin h d) with
    | error e => rw [hitems] at ok; cases ok
    | ok items =>
      rw [hitems] at ok
      cases ok
      exact .inl ⟨items, rfl, hlist, rfl⟩

/-- A list is answered in the same way under an index of 32 bits, if it has fewer items than there
are such indices. -/
theorem toReplyWithin_list_in_words (list : (h.table id).isMapping = false)
    (short : (h.table id).items.length < 2 ^ 31 - 1) :
    ((h.table id).convertInWords (toReplyWithin h d) (h.table id).entries.size 1).map
        (fun items => items.map .sequence) =
      some ((Val.table id).toReplyWithin h (d + 1)) := by
  have hitems := (h.table id).convertInWords_eq (toReplyWithin h d)
    (h.table id).entries.size 1 (Nat.add_lt_of_lt_sub' short)
  rw [toReplyWithin_table, list, if_neg Bool.false_ne_true, Table.items]
  show (Table.convertInWords _ _ _ (Int32.ofNat 1)).map _ = _
  rw [hitems]
  cases ((h.table id).itemsFrom (h.table id).entries.size 1).mapM (toReplyWithin h d) <;> rfl

/-! ## The shape of a reply -/

/-- What a value of a script is answered as.

A table with nothing in it, or with something at index 1, is a sequence of what it holds in a row
from there on. Any other table is a mapping with a field for each name that one of its keys has; the
field is what an entry under a key of that name is answered as. -/
inductive AnsweredAs (h : Heap) : Val → Value → Prop where
  | nil : AnsweredAs h .nil .nil
  | isFalse : AnsweredAs h (.bool false) .nil
  | isTrue : AnsweredAs h (.bool true) (.integer 1)
  | int (n : Int64) : AnsweredAs h (.int n) (.integer n)
  | float (f : Float) : AnsweredAs h (.float f) (.float f)
  | str (s : Bytes) : AnsweredAs h (.str s) (.text (Utf8.decode s))
  | closure (id : Nat) : AnsweredAs h (.closure id) .nil
  | builtin (b : Builtin) : AnsweredAs h (.builtin b) .nil
  | failure (id : Nat) : AnsweredAs h (.failure id) .nil
  | sequence {id : Nat} {items : List Value}
      (list : (h.table id).entries.isEmpty = true ∨ (h.table id).item 1 ≠ .nil)
      (runs : (h.table id).Runs items.length)
      (each : ∀ i (hi : i < items.length), AnsweredAs h ((h.table id).item (i + 1)) items[i]) :
      AnsweredAs h (.table id) (.sequence items)
  | mapping {id : Nat} {fields : List (String × Value)}
      (nonempty : (h.table id).entries.isEmpty = false) (first : (h.table id).item 1 = .nil)
      (sorted : Fields.Sorted fields)
      (names : ∀ name, (∃ w, (name, w) ∈ fields) ↔
        ∃ k ∈ (h.table id).entries, k.fieldName? = some name)
      (source : String × Value → Key × Val)
      (entry : ∀ field ∈ fields, (h.table id).entries[(source field).1]? = some (source field).2 ∧
        (source field).1.fieldName? = some field.1)
      (each : ∀ field ∈ fields, AnsweredAs h (source field).2 field.2) :
      AnsweredAs h (.table id) (.mapping fields)

/-- The items of a table that is answered as a sequence. -/
theorem AnsweredAs.of_items {items : List Value} (list : (h.table id).isMapping = false)
    (each : ∀ v w, v.toReplyWithin h d = .ok w → AnsweredAs h v w)
    (ok : (h.table id).items.map (toReplyWithin h d) = items.map .ok) :
    AnsweredAs h (.table id) (.sequence items) := by
  have hlength : (h.table id).items.length = items.length := by
    simpa using congrArg List.length ok
  apply AnsweredAs.sequence (Table.not_isMapping_iff.mp list)
  · rw [← hlength]
    exact (h.table id).runs_items
  · intro i hi
    have hi' : i < (h.table id).items.length := by omega
    apply each
    rw [← Table.getElem_items hi']
    have hget := congrArg (fun l => l[i]?) ok
    simpa [hi, hi'] using hget

/-- The members of a table that is answered as a mapping. -/
theorem AnsweredAs.of_members {pairs : List (String × Value)}
    (mapping : (h.table id).isMapping = true)
    (each : ∀ v w, v.toReplyWithin h d = .ok w → AnsweredAs h v w)
    (ok : (h.table id).members.mapM (memberToReply h d) = .ok pairs) :
    AnsweredAs h (.table id) (.mapping (Fields.ofPairs pairs)) := by
  obtain ⟨hfirst, hsome⟩ := Table.isMapping_iff.mp mapping
  -- the entry that a pair comes from
  have hsource (pair : String × Value) (hpair : pair ∈ pairs) :
      ∃ (k : Key) (v : Val), (h.table id).entries[k]? = some v ∧ k.fieldName? = some pair.1 ∧
        v.toReplyWithin h d = .ok pair.2 := by
    obtain ⟨⟨name, v⟩, hmember, hreply⟩ := (mem_iff_of_mapM ok).mp hpair
    obtain ⟨hname, hreply⟩ := memberToReply_eq_ok_iff.mp hreply
    obtain ⟨k, hentry, hfield⟩ := Table.mem_members_iff_exists_key.mp hmember
    exact ⟨k, v, hentry, by rw [← hname, hfield], hreply⟩
  have hsource' (field : String × Value) : ∃ p : Key × Val, field ∈ Fields.ofPairs pairs →
      (h.table id).entries[p.1]? = some p.2 ∧ p.1.fieldName? = some field.1 ∧
        p.2.toReplyWithin h d = .ok field.2 := by
    by_cases hfield : field ∈ Fields.ofPairs pairs
    · obtain ⟨k, v, hentry⟩ := hsource field (Fields.mem_of_mem_ofPairs hfield)
      exact ⟨(k, v), fun _ => hentry⟩
    · exact ⟨(.bool true, .nil), fun h => absurd h hfield⟩
  choose source hentry using hsource'
  apply AnsweredAs.mapping hsome hfirst (Fields.sorted_ofPairs pairs) _ source
  · intro field hfield
    obtain ⟨hheld, hname, -⟩ := hentry field hfield
    exact ⟨hheld, hname⟩
  · intro field hfield
    obtain ⟨-, -, hreply⟩ := hentry field hfield
    exact each _ _ hreply
  · intro name
    rw [Fields.exists_mem_ofPairs_iff]
    constructor
    · rintro ⟨w, hpair⟩
      obtain ⟨k, v, hheld, hname, -⟩ := hsource _ hpair
      exact ⟨k, Std.TreeMap.isSome_getElem?_iff_mem.mp (by rw [hheld]; rfl), hname⟩
    · rintro ⟨k, hk, hname⟩
      obtain ⟨v, hv⟩ := Option.isSome_iff_exists.mp (Std.TreeMap.isSome_getElem?_iff_mem.mpr hk)
      have hmember : (name, v) ∈ (h.table id).members :=
        Table.mem_members_iff_exists_key.mpr ⟨k, hv, hname⟩
      have hmap := List.mem_map_of_mem (f := memberToReply h d) hmember
      rw [mapM_eq_ok_iff.mp ok] at hmap
      obtain ⟨pair, hpair, heq⟩ := List.mem_map.mp hmap
      obtain ⟨rfl, -⟩ := memberToReply_eq_ok_iff.mp heq.symm
      exact ⟨pair.2, hpair⟩

/-- **What a conversion gives has the shape of a reply.** -/
theorem answeredAs_of_toReplyWithin (d : Nat) :
    ∀ v w, v.toReplyWithin h d = .ok w → AnsweredAs h v w := by
  induction d with
  | zero =>
    intro v w ok
    cases v with
    | table id => cases ok
    | bool b => cases b <;> cases ok <;> constructor
    | _ => cases ok; constructor
  | succ d ih =>
    intro v w ok
    cases v with
    | table id =>
      rcases toReplyWithin_table_cases ok with
        ⟨items, rfl, hlist, hitems⟩ | ⟨pairs, rfl, hmapping, hmembers⟩
      · exact .of_items hlist ih (mapM_eq_ok_iff.mp hitems)
      · exact .of_members hmapping ih hmembers
    | bool b => cases b <;> cases ok <;> constructor
    | _ => cases ok; constructor

end Script.Val

/-- **The shape of a reply.** A value that does not hold too many tables inside each other is
answered: a table with nothing in it or with something at index 1 as the sequence of its items up to
the first gap, any other table as the mapping of its entries under the names of their keys, and so
on inside; functions and failures are answered as nothing. All of this is read from the entries of
tables, and is the same whatever their metatables are. -/
theorem shape_of_reply {h : Heap} {v : Val} (shallow : v.toReply h ≠ .error .replyTooDeep) :
    ∃ w, v.toReply h = .ok w ∧ v.AnsweredAs h w ∧
      ∀ h' : Heap, (∀ id, (h'.table id).entries = (h.table id).entries) →
        v.toReply h' = .ok w := by
  obtain ⟨w, hok⟩ := (v.toReplyWithin_cases h replyDepth).resolve_right shallow
  refine ⟨w, hok, Val.answeredAs_of_toReplyWithin replyDepth v w hok, ?_⟩
  intro h' same
  rw [Val.toReply, Val.toReplyWithin_congr same]
  exact hok

/-- A list with a gap and a name in it, which has a metatable, inside a mapping with keys of several
kinds. -/
def mixedHeap : Heap :=
  .ofTables
    { (Table.ofList [.ofString "a", .bool false, .nil, .int 4]).set (.ofString "n") (.int 2) with
      metatable := some 1 }
    #[(((Table.empty.set (.int 2) (.table 0)).set (.bool true) (.builtin .print)).set
      (.ofString "x") (.int 5)).set (.table 0) (.int 6)]

theorem shape_of_mixed_reply :
    (Val.table 1).toReply mixedHeap ≠ .error .replyTooDeep ∧
      (Val.table 1).AnsweredAs mixedHeap (.mapping
        [("2", .sequence [.text "a", .nil]), ("true", .nil), ("x", .integer 5)]) := by
  have hreply : (Val.table 1).toReply mixedHeap = .ok (.mapping
      [("2", .sequence [.text "a", .nil]), ("true", .nil), ("x", .integer 5)]) := by cbv
  have shallow : (Val.table 1).toReply mixedHeap ≠ .error .replyTooDeep := by simp [hreply]
  obtain ⟨w, hok, hshape, -⟩ := shape_of_reply shallow
  rw [hreply] at hok
  cases hok
  exact ⟨shallow, hshape⟩

end ScriptStore
