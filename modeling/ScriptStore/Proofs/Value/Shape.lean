import Mathlib.Order.Lattice.Nat
import ScriptStore.Proofs.Value.Fields

/-!
# The shape of values

* `Value.children` — what is right inside a value; `Value.of_children` is induction on that.
* `Value.Everywhere` — something holds of a value and of all that is in it.
* `Value.depth` — how many containers are nested inside each other.
-/

namespace ScriptStore.Value

variable {P : Value → Prop} {v : Value} {items : List Value} {fields : List (String × Value)}
  {n : Nat}

/-- What is right inside a value. -/
def children : Value → List Value
  | .sequence items => items
  | .mapping fields => fields.map Prod.snd
  | _ => []

mutual

/-- What holds of a value whenever it holds of what is right inside, holds of all values. -/
theorem of_children (step : ∀ v, (∀ child ∈ v.children, P child) → P v) (v : Value) : P v := by
  cases v with
  | sequence items => exact step _ (of_items step items)
  | mapping fields => exact step _ (of_fields step fields)
  | nil => exact step .nil (List.forall_mem_nil _)
  | boolean b => exact step (.boolean b) (List.forall_mem_nil _)
  | integer n => exact step (.integer n) (List.forall_mem_nil _)
  | float f => exact step (.float f) (List.forall_mem_nil _)
  | text s => exact step (.text s) (List.forall_mem_nil _)

theorem of_items (step : ∀ v, (∀ child ∈ v.children, P child) → P v) (items : List Value) :
    ∀ child ∈ items, P child := by
  cases items with
  | nil => exact List.forall_mem_nil _
  | cons v items => exact List.forall_mem_cons.mpr ⟨of_children step v, of_items step items⟩

theorem of_fields (step : ∀ v, (∀ child ∈ v.children, P child) → P v)
    (fields : List (String × Value)) : ∀ child ∈ fields.map Prod.snd, P child := by
  cases fields with
  | nil => exact List.forall_mem_nil _
  | cons field fields =>
    obtain ⟨name, v⟩ := field
    exact List.forall_mem_cons.mpr ⟨of_children step v, of_fields step fields⟩

end

/-- Something holds of a value and of all that is in it. -/
inductive Everywhere (P : Value → Prop) : Value → Prop where
  | intro {v : Value} (here : P v) (below : ∀ child ∈ v.children, Everywhere P child) :
    Everywhere P v

theorem everywhere_iff : v.Everywhere P ↔ P v ∧ ∀ child ∈ v.children, child.Everywhere P :=
  ⟨fun ⟨here, below⟩ => ⟨here, below⟩, fun ⟨here, below⟩ => ⟨here, below⟩⟩

theorem Everywhere.imp {Q : Value → Prop} (h : v.Everywhere P) (imp : ∀ w, P w → Q w) :
    v.Everywhere Q := by
  induction h with
  | intro here below ih => exact .intro (imp _ here) ih

theorem everywhere_iff_of_scalar (scalar : v.children = []) : v.Everywhere P ↔ P v := by
  rw [everywhere_iff, scalar]
  exact and_iff_left (List.forall_mem_nil _)

@[simp] theorem everywhere_nil : Value.nil.Everywhere P ↔ P .nil := everywhere_iff_of_scalar rfl

@[simp] theorem everywhere_boolean {b : Bool} : (Value.boolean b).Everywhere P ↔ P (.boolean b) :=
  everywhere_iff_of_scalar rfl

@[simp] theorem everywhere_integer {n : Int64} : (Value.integer n).Everywhere P ↔ P (.integer n) :=
  everywhere_iff_of_scalar rfl

@[simp] theorem everywhere_float {f : Float} : (Value.float f).Everywhere P ↔ P (.float f) :=
  everywhere_iff_of_scalar rfl

@[simp] theorem everywhere_text {s : String} : (Value.text s).Everywhere P ↔ P (.text s) :=
  everywhere_iff_of_scalar rfl

@[simp] theorem everywhere_sequence : (Value.sequence items).Everywhere P ↔
    P (.sequence items) ∧ ∀ v ∈ items, v.Everywhere P := everywhere_iff

@[simp] theorem everywhere_mapping : (Value.mapping fields).Everywhere P ↔
    P (.mapping fields) ∧ ∀ field ∈ fields, field.2.Everywhere P := by
  rw [everywhere_iff, children, List.forall_mem_map]

/-! ## Depth -/

mutual

/-- How many containers are nested inside each other, the value itself included. -/
def depth : Value → Nat
  | .sequence items => itemsDepth items + 1
  | .mapping fields => fieldsDepth fields + 1
  | _ => 0

/-- How deep the deepest of the items is. -/
def itemsDepth : List Value → Nat
  | [] => 0
  | v :: items => max v.depth (itemsDepth items)

/-- How deep the deepest of the members is. -/
def fieldsDepth : List (String × Value) → Nat
  | [] => 0
  | (_, v) :: fields => max v.depth (fieldsDepth fields)

end

theorem itemsDepth_le_iff : itemsDepth items ≤ n ↔ ∀ v ∈ items, v.depth ≤ n := by
  induction items with
  | nil => simp [itemsDepth]
  | cons v items ih => rw [itemsDepth, max_le_iff, ih, List.forall_mem_cons]

theorem fieldsDepth_eq (fields : List (String × Value)) :
    fieldsDepth fields = itemsDepth (fields.map Prod.snd) := by
  induction fields with
  | nil => rfl
  | cons field fields ih => rw [fieldsDepth, ih, List.map_cons, itemsDepth]

/-- A value is as deep as what is right inside, and one more. -/
theorem depth_le_succ_iff : v.depth ≤ n + 1 ↔ ∀ child ∈ v.children, child.depth ≤ n := by
  cases v with
  | sequence items => rw [depth, Nat.succ_le_succ_iff, itemsDepth_le_iff, children]
  | mapping fields =>
    rw [depth, Nat.succ_le_succ_iff, fieldsDepth_eq, itemsDepth_le_iff, children]
  | _ => simp [depth, children]

end ScriptStore.Value
