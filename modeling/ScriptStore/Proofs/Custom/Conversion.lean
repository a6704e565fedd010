import ScriptStore.Custom.Access
import ScriptStore.Proofs.Keyspace.Replies
import ScriptStore.Proofs.Script.Table
import ScriptStore.Proofs.Text.Utf8

/-!
# There and back

A reply that a script gets from the store and hands on as its own result comes out as it went in,
and so does a text that it passes as an argument.

* `Table.Lists.items` — the items of a table that holds a list.
* `Value.IsReply.toReply_toScript` — **a reply comes back from the script as it was**.
* `Custom.commandOf_texts` — a script that passes texts asks for the command of these texts.
-/

namespace ScriptStore

open Script

variable {v : Value} {h h' : Heap} {t : Table} {vs : List Val}

/-! ## Items of a table -/

namespace Script.Table

/-- The items from an index on are the rest of the list. -/
theorem Lists.itemsFrom (lists : t.Lists vs) (solid : ∀ v ∈ vs, v ≠ .nil) :
    ∀ fuel i : Nat, i + 1 + fuel ≤ 2 ^ 63 →
      t.itemsFrom fuel (i + 1) = (vs.drop i).take fuel := by
  intro fuel
  induction fuel with
  | zero => intro i _; simp [Table.itemsFrom]
  | succ fuel ih =>
    intro i hi
    have hitem : t.item (i + 1) = vs[i]?.getD .nil := lists.item (Nat.succ_pos i) (by omega)
    rw [Table.itemsFrom, hitem]
    cases hv : vs[i]? with
    | none =>
      have hend : vs.length ≤ i := List.getElem?_eq_none_iff.mp hv
      simp [List.drop_eq_nil_of_le hend]
    | some v =>
      obtain ⟨hlt, rfl⟩ := List.getElem?_eq_some_iff.mp hv
      have hne : vs[i] ≠ .nil := solid _ (List.getElem_mem hlt)
      rw [List.drop_eq_getElem_cons hlt, List.take_succ_cons, ← ih (i + 1) (by omega)]
      simp only [Option.getD_some]

/-- **The items of a table that holds a list are the list.** -/
theorem Lists.items (lists : t.Lists vs) (solid : ∀ v ∈ vs, v ≠ .nil)
    (short : vs.length < 2 ^ 63) : t.items = vs := by
  rw [Table.items, lists.size, lists.itemsFrom solid _ 0 (by omega)]
  simp

/-- A table that holds a list is no mapping. -/
theorem Lists.isMapping (lists : t.Lists vs) (solid : ∀ v ∈ vs, v ≠ .nil) :
    t.isMapping = false := by
  cases vs with
  | nil =>
    have hempty : t.entries.isEmpty = true := by
      rw [Std.TreeMap.isEmpty_eq_size_eq_zero, lists.size]
      rfl
    simp [Table.isMapping, hempty]
  | cons v vs =>
    have hfirst : t.item 1 = v := lists.item Nat.one_pos (by decide)
    have hsolid : v ≠ .nil := solid v (by simp)
    have hnil : v.isNil = false := by
      cases v with
      | nil => exact (hsolid rfl).elim
      | _ => rfl
    simp [Table.isMapping, hfirst, hnil]

end Script.Table

/-! ## Replies -/

/-- A conversion that succeeds for each element succeeds for a list of them. -/
theorem mapM_map_eq_ok {α β γ ε : Type} {f : β → Except ε γ} {g : α → β} {result : α → γ}
    (each : ∀ a, f (g a) = .ok (result a)) (as : List α) :
    (as.map g).mapM f = .ok (as.map result) := by
  induction as with
  | nil => rfl
  | cons a as ih =>
    rw [List.map_cons, List.mapM_cons, each, ih]
    rfl

/-- A conversion succeeds for a list if it succeeds for each element, and gives what it gives for
these. -/
theorem mapM_eq_ok_iff {α β ε : Type} {f : α → Except ε β} {as : List α} {bs : List β} :
    as.mapM f = .ok bs ↔ as.map f = bs.map .ok := by
  induction as generalizing bs with
  | nil => cases bs <;> simp [pure, Except.pure]
  | cons a as ih =>
    rw [List.mapM_cons, List.map_cons]
    cases hf : f a with
    | error e => cases bs <;> simp [bind, Except.bind]
    | ok b =>
      cases hrest : as.mapM f with
      | error e =>
        have hnot : ∀ bs : List β, as.map f ≠ bs.map .ok := fun bs h => by
          rw [← ih, hrest] at h
          cases h
        cases bs <;> simp [bind, Except.bind, hnot]
      | ok rest =>
        have hmap : as.map f = rest.map .ok := ih.mp hrest
        have hinj (bs : List β) : rest.map (Except.ok (ε := ε)) = bs.map .ok ↔ rest = bs :=
          List.map_inj_right fun _ _ => Except.ok.inj
        cases bs <;> simp [bind, Except.bind, pure, Except.pure, hmap, hinj]

theorem itemsToScript_texts (texts : List String) (h : Heap) :
    itemsToScript (texts.map .text) h = (texts.map .ofString, h) := by
  induction texts with
  | nil => rfl
  | cons text texts ih =>
    simp only [List.map_cons, itemsToScript, Value.toScript, ih]

theorem toReplyWithin_ofString (h : Heap) (depth : Nat) (text : String) :
    Val.toReplyWithin h depth (.ofString text) = .ok (.text text) := by
  have hdecode : Utf8.decode (bytes text) = text := Utf8.decode_encode text
  cases depth <;> simp only [Val.ofString, Val.toReplyWithin, hdecode]

/-- **A reply comes back from the script as it was**, from any heap in which its table still is what
it was. -/
theorem Value.IsReply.toReply_toScript (reply : v.IsReply)
    (short : ∀ items, v = .sequence items → items.length < 2 ^ 63)
    (kept : h'.tables = (v.toScript h).2.tables) : (v.toScript h).1.toReply h' = .ok v := by
  cases reply with
  | nil => rfl
  | integer n => rfl
  | text text => exact toReplyWithin_ofString h' replyDepth text
  | texts texts =>
    have hlength : texts.length < 2 ^ 63 := by simpa using short _ rfl
    have hsolid : ∀ v ∈ texts.map Val.ofString, v ≠ .nil := by simp [Val.ofString]
    have hlists : (Table.empty.fill (texts.map .ofString)).Lists (texts.map Val.ofString) :=
      .fill rfl _ hsolid (by simpa using hlength)
    have hscript : (Value.sequence (texts.map .text)).toScript h =
        (.table h.tables.size, (h.newTable (Table.empty.fill (texts.map .ofString))).2) := by
      rw [Value.toScript, itemsToScript_texts]
      rfl
    rw [hscript] at kept ⊢
    have htable : h'.table h.tables.size = Table.empty.fill (texts.map .ofString) := by
      rw [Heap.table, kept]
      simp [Heap.newTable]
    have hitems := hlists.items hsolid (by simpa using hlength)
    have htexts := mapM_map_eq_ok (toReplyWithin_ofString h' 63) texts
    simp only [Val.toReply, replyDepth, Val.toReplyWithin, htable, hlists.isMapping hsolid, hitems,
      htexts]
    rfl

/-! ## Arguments -/

theorem toArgument_ofString (text : String) : (Val.ofString text).toArgument = .ok text := by
  have hdecode : Utf8.decode (bytes text) = text := Utf8.decode_encode text
  rw [Val.ofString, Val.toArgument, hdecode]

/-- A script that passes texts asks for the command of these texts. -/
theorem Custom.commandOf_texts (access : StoreAccess) (name : String) (args : List String) :
    Custom.commandOf access ((name :: args).map .ofString) = .ok (name, args) := by
  have hargs : (args.map Val.ofString).mapM Val.toArgument = .ok (args.map id) :=
    mapM_map_eq_ok toArgument_ofString args
  rw [List.map_cons, commandOf, toArgument_ofString, hargs, List.map_id]
  rfl

end ScriptStore
