import Mathlib
import ScriptStore.Proofs.Custom.Nesting

/-!
# Tables in any order

The entries of a table have no order of their own. A mapping is filled with them one after the
other, under the names of their keys, and a number and a string may have the same name.

* `Heap.Traversal` — an order of the entries of each table, and `Val.toReplyAlong` — what a value is
  answered as if tables are gone through in it; `Val.toReplyAlong_inOrder` — in the order of their
  keys it is the reply.
* `Table.KeysApart` — the keys of a table have different names.
* `Table.forall_order_iff` — **a mapping is the same in every order exactly if entries under keys
  with the same name have the same reply**.
* `Table.length_ofPairs_iff` — **it has a field for each entry with a name exactly if the keys are
  apart**.
* `Val.toReplyAlong_of_keysApart` — where the keys are apart in all mappings inside, too, the whole
  reply is the same in every order.
* `clashing_keys_merge` — where they are not, an entry is lost, and the order tells which.
-/

namespace ScriptStore

open Script

variable {h : Heap} {v : Val} {d id : Nat} {pairs : List (String × Value)}

/-! ## Conversions one after the other -/

theorem mapM_eq_ok_iff_forall₂ {α β ε : Type} {f : α → Except ε β} {l : List α} {bs : List β} :
    l.mapM f = .ok bs ↔ List.Forall₂ (fun a b => f a = .ok b) l bs := by
  rw [mapM_eq_ok_iff, ← List.forall₂_eq_eq_eq, List.forall₂_map_left_iff,
    List.forall₂_map_right_iff]

/-- Conversions in another order give the same results in another order. -/
theorem exists_perm_of_mapM {α β ε : Type} {f : α → Except ε β} {l l' : List α} {bs : List β}
    (perm : l'.Perm l) (ok : l.mapM f = .ok bs) : ∃ bs', bs'.Perm bs ∧ l'.mapM f = .ok bs' := by
  obtain ⟨bs', hbs', hperm⟩ := List.perm_comp_forall₂ perm (mapM_eq_ok_iff_forall₂.mp ok)
  exact ⟨bs', hperm, mapM_eq_ok_iff_forall₂.mpr hbs'⟩

/-- Another conversion that agrees with one that succeeds. -/
theorem mapM_eq_ok_of_forall {α β ε : Type} {f g : α → Except ε β} {l : List α} {bs : List β}
    (ok : l.mapM f = .ok bs) (same : ∀ a ∈ l, ∀ b, f a = .ok b → g a = .ok b) :
    l.mapM g = .ok bs := by
  obtain ⟨hlength, hzip⟩ := List.forall₂_iff_zip.mp (mapM_eq_ok_iff_forall₂.mp ok)
  apply mapM_eq_ok_iff_forall₂.mpr
  apply List.forall₂_iff_zip.mpr
  refine ⟨hlength, ?_⟩
  intro a b hab
  exact same a (List.of_mem_zip hab).1 b (hzip hab)

namespace Script

/-! ## Entries in an order -/

/-- The entries with a name, as they stand. -/
def namedEntries (entries : List (Key × Val)) : List (String × Val) :=
  entries.filterMap fun p => p.1.fieldName?.map fun name => (name, p.2)

/-- A member as a field, by some way to answer what it holds. -/
def fieldBy (reply : Val → Except ScriptFault Value) (member : String × Val) :
    Except ScriptFault (String × Value) :=
  (reply member.2).map (member.1, ·)

/-- The mapping that entries fill one after the other. -/
def mappingAlong (reply : Val → Except ScriptFault Value) (entries : List (Key × Val)) :
    Except ScriptFault Value :=
  ((namedEntries entries).mapM (fieldBy reply)).map fun fields => .mapping (Fields.ofPairs fields)

/-- An order of the entries of each table. -/
structure Heap.Traversal (h : Heap) where
  order : Nat → List (Key × Val)
  perm : ∀ id, (order id).Perm (h.table id).entries.toList

/-- The order of the keys. -/
def Heap.Traversal.inOrder (h : Heap) : h.Traversal where
  order := fun id => (h.table id).entries.toList
  perm := fun _ => .refl _

/-- The same order from its end. -/
def Heap.Traversal.reverse (o : h.Traversal) : h.Traversal where
  order := fun id => (o.order id).reverse
  perm := fun id => (List.reverse_perm _).trans (o.perm id)

/-- A value of a script as a reply, with so many tables still allowed to nest, if the entries of
tables are gone through in some order. -/
def Val.toReplyAlong (o : h.Traversal) : Nat → Val → Except ScriptFault Value
  | depth + 1, .table id =>
    if (h.table id).isMapping then mappingAlong (toReplyAlong o depth) (o.order id)
    else ((h.table id).items.mapM (toReplyAlong o depth)).map .sequence
  | _, v => v.toReplyWithin h 0

/-- Whether a key has a name: strings, numbers and booleans have one. -/
def Key.isNamed : Key → Bool
  | .str _ | .int _ | .float _ | .bool _ => true
  | .table _ | .closure _ | .builtin _ | .failure _ => false

theorem Key.isSome_fieldName? (k : Key) : k.fieldName?.isSome = k.isNamed := by
  cases k <;> rfl

theorem fieldBy_eq_ok_iff {reply : Val → Except ScriptFault Value} {member : String × Val}
    {field : String × Value} :
    fieldBy reply member = .ok field ↔ member.1 = field.1 ∧ reply member.2 = .ok field.2 := by
  obtain ⟨name, v⟩ := field
  rw [fieldBy]
  cases reply member.2 <;> simp [Except.map]

theorem mappingAlong_eq_ok_iff {reply : Val → Except ScriptFault Value}
    {entries : List (Key × Val)} {fields : List (String × Value)} :
    mappingAlong reply entries = .ok (.mapping fields) ↔
      ∃ pairs, (namedEntries entries).mapM (fieldBy reply) = .ok pairs ∧
        Fields.ofPairs pairs = fields := by
  rw [mappingAlong]
  cases (namedEntries entries).mapM (fieldBy reply) <;> simp [Except.map]

/-- **In the order of their keys, the entries of tables give the reply.** -/
theorem Val.toReplyAlong_inOrder (h : Heap) (d : Nat) (v : Val) :
    v.toReplyAlong (.inOrder h) d = v.toReplyWithin h d := by
  induction d generalizing v with
  | zero => cases v <;> rfl
  | succ d ih =>
    cases v with
    | table id =>
      have hwithin : toReplyAlong (.inOrder h) d = toReplyWithin h d := funext ih
      rw [toReplyWithin_table, toReplyAlong, hwithin]
      rfl
    | bool b => cases b <;> rfl
    | _ => rfl

namespace Table

variable {t : Table} {reply : Val → Except ScriptFault Value}

/-! ## Keys with the same name -/

/-- The keys of a table have different names. -/
def KeysApart (t : Table) : Prop :=
  ∀ k ∈ t.entries, ∀ k' ∈ t.entries, ∀ name, k.fieldName? = some name → k'.fieldName? = some name →
    k = k'

/-- How many keys of a table have a name. -/
def namedCount (t : Table) : Nat := t.entries.keys.countP Key.isNamed

/-- Entries under keys with the same name have the same reply. -/
def RepliesAgree (t : Table) (reply : Val → Except ScriptFault Value) : Prop :=
  ∀ (k k' : Key) (v v' : Val) (name : String), t.entries[k]? = some v → t.entries[k']? = some v' →
    k.fieldName? = some name → k'.fieldName? = some name → reply v = reply v'

theorem names_members (t : Table) :
    t.members.map Prod.fst = t.entries.keys.filterMap Key.fieldName? := by
  rw [members, ← Std.TreeMap.map_fst_toList_eq_keys, List.map_filterMap, List.filterMap_map]
  congr 1
  funext p
  simp [Option.map_map, Function.comp_def]

theorem length_members (t : Table) : t.members.length = t.namedCount := by
  rw [← List.length_map (f := Prod.fst), names_members, List.length_filterMap_eq_countP, namedCount]
  congr 1
  funext k
  exact k.isSome_fieldName?

/-- The names of the members are different exactly if the keys are apart. -/
theorem nodup_names_iff : (t.members.map Prod.fst).Nodup ↔ t.KeysApart := by
  rw [names_members, List.Nodup, List.pairwise_filterMap]
  constructor
  · intro hpairwise k hk k' hk' name hname hname'
    by_contra hne
    have hsymm : Std.Symm fun a b : Key =>
        ∀ n, a.fieldName? = some n → ∀ n', b.fieldName? = some n' → n ≠ n' :=
      ⟨fun _ _ hab n hn n' hn' heq => hab n' hn' n hn heq.symm⟩
    exact List.Pairwise.forall hpairwise (Std.TreeMap.mem_keys.mpr hk)
      (Std.TreeMap.mem_keys.mpr hk') hne name hname name hname' rfl
  · intro apart
    apply List.Nodup.pairwise_of_forall_ne Std.TreeMap.nodup_keys
    intro k hk k' hk' hne name hname name' hname' heq
    subst heq
    exact hne (apart k (Std.TreeMap.mem_keys.mp hk) k' (Std.TreeMap.mem_keys.mp hk') name hname
      hname')

/-- The fields that members give have their names. -/
theorem names_of_mapM (ok : t.members.mapM (fieldBy reply) = .ok pairs) :
    pairs.map Prod.fst = t.members.map Prod.fst := by
  have hnames := mapM_eq_ok_iff_forall₂.mp ok
  symm
  rw [← List.forall₂_eq_eq_eq, List.forall₂_map_left_iff, List.forall₂_map_right_iff]
  apply hnames.imp
  intro member field hfield
  exact (fieldBy_eq_ok_iff.mp hfield).1

theorem distinct_iff_keysApart (ok : t.members.mapM (fieldBy reply) = .ok pairs) :
    Fields.Distinct pairs ↔ t.KeysApart := by
  rw [← nodup_names_iff, ← names_of_mapM ok, List.Nodup, List.pairwise_map]
  rfl

/-- **A mapping has a field for each entry with a name exactly if the keys are apart.** -/
theorem length_ofPairs_iff (ok : t.members.mapM (fieldBy reply) = .ok pairs) :
    (Fields.ofPairs pairs).length = t.namedCount ↔ t.KeysApart := by
  have hlength : pairs.length = t.namedCount := by
    rw [← length_members, ← List.length_map (f := Prod.fst), names_of_mapM ok, List.length_map]
  rw [← hlength, Fields.length_ofPairs_eq_iff, distinct_iff_keysApart ok]

/-- Members have the fields that they give, and no others. -/
theorem mem_pairs_iff (ok : t.members.mapM (fieldBy reply) = .ok pairs) {field : String × Value} :
    field ∈ pairs ↔ ∃ (k : Key) (v : Val), t.entries[k]? = some v ∧
      k.fieldName? = some field.1 ∧ reply v = .ok field.2 := by
  rw [mem_iff_of_mapM ok]
  constructor
  · rintro ⟨⟨name, v⟩, hmember, hfield⟩
    obtain ⟨rfl, hreply⟩ := fieldBy_eq_ok_iff.mp hfield
    obtain ⟨k, hentry, hname⟩ := mem_members_iff_exists_key.mp hmember
    exact ⟨k, v, hentry, hname, hreply⟩
  · rintro ⟨k, v, hentry, hname, hreply⟩
    exact ⟨(field.1, v), mem_members_iff_exists_key.mpr ⟨k, hentry, hname⟩,
      fieldBy_eq_ok_iff.mpr ⟨rfl, hreply⟩⟩

theorem agree_of_repliesAgree (ok : t.members.mapM (fieldBy reply) = .ok pairs)
    (agree : t.RepliesAgree reply) : Fields.Agree pairs := by
  intro name w w' hw hw'
  obtain ⟨k, v, hentry, hname, hreply⟩ := (mem_pairs_iff ok).mp hw
  obtain ⟨k', v', hentry', hname', hreply'⟩ := (mem_pairs_iff ok).mp hw'
  have hsame := agree k k' v v' name hentry hentry' hname hname'
  rw [hreply, hreply'] at hsame
  exact Except.ok.inj hsame

/-- In another order, members that agree give the same mapping. -/
theorem mappingAlong_of_perm {entries : List (Key × Val)} (perm : entries.Perm t.entries.toList)
    (ok : t.members.mapM (fieldBy reply) = .ok pairs) (agree : Fields.Agree pairs) :
    mappingAlong reply entries = .ok (.mapping (Fields.ofPairs pairs)) := by
  have hperm : (namedEntries entries).Perm t.members := perm.filterMap _
  obtain ⟨pairs', hperm', hok⟩ := exists_perm_of_mapM hperm ok
  exact mappingAlong_eq_ok_iff.mpr ⟨pairs', hok, (agree.ofPairs_perm hperm'.symm).symm⟩

/-- In every order there is a field with the reply of the last entry. -/
theorem mem_of_mappingAlong_snoc {entries : List (Key × Val)} {k : Key} {name : String}
    {fields : List (String × Value)} (named : k.fieldName? = some name)
    (ok : mappingAlong reply (entries ++ [(k, v)]) = .ok (.mapping fields)) :
    ∃ w, reply v = .ok w ∧ (name, w) ∈ fields := by
  obtain ⟨pairs, hpairs, rfl⟩ := mappingAlong_eq_ok_iff.mp ok
  have hsnoc : namedEntries (entries ++ [(k, v)]) = namedEntries entries ++ [(name, v)] := by
    simp [namedEntries, named]
  rw [hsnoc, mapM_eq_ok_iff, List.map_append, List.map_singleton, eq_comm] at hpairs
  obtain ⟨first, last, rfl, -, hlast⟩ := List.map_eq_append_iff.mp hpairs
  obtain ⟨field, rfl, hfield⟩ := List.map_eq_singleton_iff.mp hlast
  obtain ⟨rfl, hreply⟩ := fieldBy_eq_ok_iff.mp hfield.symm
  exact ⟨field.2, hreply, Fields.mem_ofPairs_snoc first field⟩

/-- **A mapping is the same in every order exactly if entries under keys with the same name have the
same reply**: any entry may be the last. -/
theorem forall_order_iff (ok : t.members.mapM (fieldBy reply) = .ok pairs) :
    (∀ order : List (Key × Val), order.Perm t.entries.toList →
        mappingAlong reply order = .ok (.mapping (Fields.ofPairs pairs))) ↔
      t.RepliesAgree reply := by
  constructor
  · intro same
    -- an entry that comes last has its reply in the mapping
    have hlast (k : Key) (v : Val) (name : String) (hentry : t.entries[k]? = some v)
        (hname : k.fieldName? = some name) :
        ∃ w, reply v = .ok w ∧ (name, w) ∈ Fields.ofPairs pairs := by
      obtain ⟨before, behind, hsplit⟩ :=
        List.append_of_mem (Std.TreeMap.mem_toList_iff_getElem?_eq_some.mpr hentry)
      have hperm : (before ++ behind ++ [(k, v)]).Perm t.entries.toList := by
        rw [hsplit]
        exact (List.perm_append_singleton _ _).trans List.perm_middle.symm
      exact mem_of_mappingAlong_snoc hname (same _ hperm)
    intro k k' v v' name hentry hentry' hname hname'
    obtain ⟨w, hreply, hw⟩ := hlast k v name hentry hname
    obtain ⟨w', hreply', hw'⟩ := hlast k' v' name hentry' hname'
    rw [hreply, hreply', (Fields.sorted_ofPairs pairs).distinct.eq hw hw']
  · intro agree order perm
    exact mappingAlong_of_perm perm ok (agree_of_repliesAgree ok agree)

end Table

/-! ## Tables inside -/

/-- A table is a value, or is held somewhere inside it. -/
inductive Heap.Holds (h : Heap) : Val → Nat → Prop where
  | here {id : Nat} : Holds h (.table id) id
  | inside {id inner : Nat} {v : Val} (visits : h.Visits id v) (holds : Holds h v inner) :
      Holds h (.table id) inner

/-- **Where keys are apart in all mappings, the reply is the same in every order.** -/
theorem Val.toReplyAlong_of_keysApart (o : h.Traversal) {reply : Value}
    (apart : ∀ inner, h.Holds v inner → (h.table inner).isMapping = true →
      (h.table inner).KeysApart)
    (ok : v.toReplyWithin h d = .ok reply) : v.toReplyAlong o d = .ok reply := by
  induction d generalizing v reply with
  | zero => cases v <;> exact ok
  | succ d ih =>
    cases v with
    | table id =>
      rw [toReplyAlong]
      rcases toReplyWithin_table_cases ok with
        ⟨items, rfl, hlist, hitems⟩ | ⟨pairs, rfl, hmapping, hmembers⟩
      · have halong : (h.table id).items.mapM (toReplyAlong o d) = .ok items := by
          apply mapM_eq_ok_of_forall hitems
          intro v hv w hw
          have hvisits := (Heap.visits_iff_mem_items hlist).mpr hv
          apply ih _ hw
          intro inner hinner
          exact apart inner (.inside hvisits hinner)
        rw [if_neg (by simp [hlist]), halong]
        rfl
      · have halong : (h.table id).members.mapM (fieldBy (toReplyAlong o d)) = .ok pairs := by
          apply mapM_eq_ok_of_forall hmembers
          intro member hmember field hfield
          have hvisits := (Heap.visits_iff_mem_members hmapping).mpr ⟨member.1, hmember⟩
          obtain ⟨hname, hreply⟩ := fieldBy_eq_ok_iff.mp hfield
          refine fieldBy_eq_ok_iff.mpr ⟨hname, ih ?_ hreply⟩
          intro inner hinner
          exact apart inner (.inside hvisits hinner)
        have hdistinct := (Table.distinct_iff_keysApart halong).mpr (apart id .here hmapping)
        rw [if_pos hmapping]
        apply Table.mappingAlong_of_perm (o.perm id) halong
        intro name w w' hw hw'
        exact hdistinct.eq hw hw'
    | bool b => cases b <;> exact ok
    | _ => exact ok

end Script

/-- **A mapping keeps every entry, in every order, exactly if its keys have different names.** A
table is answered as a mapping with as many fields as it has strings, numbers and booleans for keys
if and only if no two keys have the same name. The mapping is the same in every order of its entries
if and only if those under keys with the same name have the same reply. If keys are apart in all
mappings that the table holds, the order plays no part at any depth. -/
theorem mapping_keeps_entries_iff {h : Heap} {id d : Nat} {fields : List (String × Value)}
    (ok : (Val.table id).toReplyWithin h (d + 1) = .ok (.mapping fields)) :
    (fields.length = (h.table id).namedCount ↔ (h.table id).KeysApart) ∧
      ((∀ order : List (Key × Val), order.Perm (h.table id).entries.toList →
          mappingAlong (Val.toReplyWithin h d) order = .ok (.mapping fields)) ↔
        (h.table id).RepliesAgree (Val.toReplyWithin h d)) ∧
      ((∀ inner, h.Holds (.table id) inner → (h.table inner).isMapping = true →
          (h.table inner).KeysApart) →
        ∀ o : h.Traversal, (Val.table id).toReplyAlong o (d + 1) = .ok (.mapping fields)) := by
  rcases Val.toReplyWithin_table_cases ok with ⟨items, hne, -⟩ | ⟨pairs, heq, -, hmembers⟩
  · cases hne
  · cases heq
    refine ⟨Table.length_ofPairs_iff hmembers, Table.forall_order_iff hmembers, ?_⟩
    intro apart o
    exact Val.toReplyAlong_of_keysApart o apart ok

theorem mixed_mapping_keeps_entries :
    (Val.table 1).toReplyWithin mixedHeap 64 = .ok (.mapping
        [("2", .sequence [.text "a", .nil]), ("true", .nil), ("x", .integer 5)]) ∧
      (mixedHeap.table 1).namedCount = 3 ∧ (mixedHeap.table 1).KeysApart ∧
      ∀ o : mixedHeap.Traversal, (Val.table 1).toReplyAlong o 64 = .ok (.mapping
        [("2", .sequence [.text "a", .nil]), ("true", .nil), ("x", .integer 5)]) := by
  have hreply : (Val.table 1).toReplyWithin mixedHeap 64 = .ok (.mapping
      [("2", .sequence [.text "a", .nil]), ("true", .nil), ("x", .integer 5)]) := by cbv
  have hcount : (mixedHeap.table 1).namedCount = 3 := by cbv
  obtain ⟨hkeys, -, hsame⟩ := mapping_keeps_entries_iff hreply
  have hapart : (mixedHeap.table 1).KeysApart := hkeys.mp hcount.symm
  refine ⟨hreply, hcount, hapart, hsame ?_⟩
  -- the mapping holds no other mapping: in the list there is no table
  have hlist : (mixedHeap.table 0).isMapping = false := by cbv
  have hitems : (mixedHeap.table 0).items = [.ofString "a", .bool false] := by cbv
  have hmapping : (mixedHeap.table 1).isMapping = true := by cbv
  have hmembers : (mixedHeap.table 1).members =
      [("true", .builtin .print), ("2", .table 0), ("x", .int 5)] := by cbv
  intro inner holds hinner
  cases holds with
  | here => exact hapart
  | inside visits holds =>
    obtain ⟨name, hmember⟩ := (Heap.visits_iff_mem_members hmapping).mp visits
    simp only [hmembers, List.mem_cons, Prod.mk.injEq, List.not_mem_nil, or_false] at hmember
    rcases hmember with ⟨-, rfl⟩ | ⟨-, rfl⟩ | ⟨-, rfl⟩
    · cases holds
    · cases holds with
      | here =>
        rw [hlist] at hinner
        cases hinner
      | inside visits holds =>
        rw [Heap.visits_iff_mem_items hlist, hitems] at visits
        cases holds <;> simp [Val.ofString] at visits
    · cases holds

/-- A table with a number and a string for keys that have the same name. -/
def clashingHeap : Heap :=
  .ofTables ((Table.empty.set (.int 2) (.ofString "a")).set (.ofString "2") (.ofString "b")) #[]

/-- **Keys with the same name merge**: of two entries one is left, and the order tells which. -/
theorem clashing_keys_merge :
    (clashingHeap.table 0).namedCount = 2 ∧
      (Val.table 0).toReply clashingHeap = .ok (.mapping [("2", .text "b")]) ∧
      (Val.table 0).toReplyAlong (Heap.Traversal.inOrder clashingHeap).reverse replyDepth =
        .ok (.mapping [("2", .text "a")]) := by
  refine ⟨?_, ?_, ?_⟩
  · cbv
  · cbv
  · cbv

end ScriptStore
