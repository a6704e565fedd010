import Mathlib.Data.List.TakeWhile
import ScriptStore.Proofs.Script.Globals

/-!
# What a script comes to

A script that is left to itself takes one step after another, and its count of ticks has no part in
where they lead. This module follows a script through calls of functions and of the store.

* `Reaches` — the steps of a script lead from one state to another, with nobody else's part in it.
* `Next.unwind_of_unprotected` — what becomes of a failure that no protected call catches.
* `Heap.HasStore` — a script that writes `redis.call` means the store;
  `Heap.HasStore.of_publish` — it still does when the arguments of a call have been published.
* `reaches_storeCall` — a call of the store with texts comes to ask for them.
* `reaches_call` — a call of a function on the spot comes to call it.
-/

namespace ScriptStore.Script

variable {frames gs : List Frame} {h h' : Heap} {env : Env} {line id : Nat} {name text : String}
  {texts : List String}

/-- Whether a script is neither over nor waiting for the store. -/
def Control.isRunning : Control → Bool
  | .asks .. | .finished _ => false
  | _ => true

/-- A script without its count of ticks. -/
abbrev Snapshot := Control × List Frame × Heap

/-- The steps of a script lead from one state to another. -/
inductive Reaches : Snapshot → Snapshot → Prop where
  | refl (c : Snapshot) : Reaches c c
  | step {control : Control} {frames : List Frame} {h : Heap} {c : Snapshot}
    (running : control.isRunning = true) (rest : Reaches (Next.after control frames h) c) :
    Reaches (control, frames, h) c

theorem Reaches.trans {a b c : Snapshot} (first : Reaches a b) (second : Reaches b c) :
    Reaches a c := by
  induction first with
  | refl => exact second
  | step running _ ih => exact .step running (ih second)

/-- One step. -/
theorem Reaches.one {control : Control} {c : Snapshot} (running : control.isRunning = true)
    (next : Next.after control frames h = c) : Reaches (control, frames, h) c := by
  rw [← next]
  exact .step running (.refl _)

/-! ## Failures -/

/-- A failure that no protected call catches ends the script with its message. -/
theorem Next.unwind_of_unprotected (unprotected : frames.any Frame.isProtection = false)
    (h : Heap) :
    Next.unwind (.failure id) frames h = (.finished (.error (h.failure id)), [], h) := by
  have hnone : frames.dropWhile (fun f => !f.isProtection) = [] := by
    simpa [List.dropWhile_eq_nil_iff] using unprotected
  unfold Next.unwind
  rw [hnone]
  rfl

@[simp] theorem Heap.failure_newFailure (h : Heap) (message : Bytes) :
    (h.newFailure message).2.failure (h.newFailure message).1 = message := by
  simp [Heap.newFailure, Heap.failure]

/-! ## The way to the store -/

/-- A script that writes `redis.call` means the store. -/
def Heap.HasStore (h : Heap) : Prop :=
  ∃ id, h.rawGet Heap.globals (.ofString "redis") = .table id ∧
    h.rawGet id (.ofString "call") = .builtin .storeCall

/-- In a fresh environment `redis.call` is the store. -/
theorem Heap.hasStore_initial : Heap.initial.HasStore := by
  refine ⟨4, ?_, ?_⟩
  · show (namedTable _).get (.ofString "redis") = .table 4
    rw [get_namedTable]
    rfl
  · show (namedTable _).get (.ofString "call") = .builtin .storeCall
    rw [get_namedTable]
    rfl

theorem Heap.HasStore.congr (tables : h'.tables = h.tables) (store : h.HasStore) : h'.HasStore := by
  have hraw : h'.rawGet = h.rawGet := by
    funext id key
    simp only [Heap.rawGet, Heap.table, tables]
  rw [HasStore, hraw]
  exact store

/-- What tables hold on the way to the store is all that counts. -/
theorem Heap.HasStore.of_get (store : h.HasStore)
    (same : ∀ id text, text = "redis" ∨ text = "call" → (h.table id).get (.ofString text) ≠ .nil →
      (h'.table id).get (.ofString text) = (h.table id).get (.ofString text)) : h'.HasStore := by
  obtain ⟨id, hredis, hcall⟩ := store
  have hheld : (h.table globals).get (.ofString "redis") = .table id := hredis
  have hheld' : (h.table id).get (.ofString "call") = .builtin .storeCall := hcall
  refine ⟨id, ?_, ?_⟩
  · exact (same globals "redis" (.inl rfl) (by simp [hheld])).trans hheld
  · exact (same id "call" (.inr rfl) (by simp [hheld'])).trans hheld'

/-- A new table leaves the way to the store. -/
theorem Heap.HasStore.newTable (store : h.HasStore) (t : Table) : (h.newTable t).2.HasStore := by
  refine store.of_get fun id text _ held => ?_
  rw [table_newTable]
  split
  · rename_i hid
    rw [hid, get_table_size] at held
    exact (held rfl).elim
  · rfl

/-- Binding another name somewhere leaves the way to the store. -/
theorem Heap.HasStore.modifyTable (store : h.HasStore)
    (redis : Key.ofString "redis" ≠ .ofString name) (call : Key.ofString "call" ≠ .ofString name)
    (id : Nat) (v : Val) : (h.modifyTable id fun t => t.set (.ofString name) v).HasStore := by
  refine store.of_get fun id' text texts held => ?_
  have hne : Key.ofString text ≠ .ofString name := by
    rcases texts with rfl | rfl
    · exact redis
    · exact call
  rcases Nat.lt_or_ge id h.tables.size with hid | hid
  · rw [table_modifyTable _ _ _ _ hid]
    split
    · rename_i heq
      rw [Table.get_set, if_neg hne, heq]
    · rfl
  · rw [table_modifyTable_of_le _ _ _ _ hid]

/-- Publishing the arguments of a call at once leaves the way to the store. -/
theorem Heap.HasStore.of_publish {keys args : List String} (store : h.HasStore)
    (done : Routine.publish keys args h = .done () h') : h'.HasStore := by
  obtain ⟨between, hkeys, hargs⟩ := Routine.exists_of_publish_eq_done done
  obtain ⟨id, rfl⟩ := Routine.exists_of_publishTexts_eq_done hkeys
  obtain ⟨id', rfl⟩ := Routine.exists_of_publishTexts_eq_done hargs
  have hbetween := (store.newTable (.ofList (keys.map .ofString))).modifyTable
    (by decide : Key.ofString "redis" ≠ .ofString "KEYS") (by decide) id (.table h.tables.size)
  exact (hbetween.newTable _).modifyTable (by decide) (by decide) id' _

/-! ## Expressions -/

/-- A routine that runs through gives its value. -/
theorem Next.performOne_of_done {r : Routine Val} {v : Val} (done : r h = .done v h') :
    Next.performOne line r frames h = (.give [v], frames, h') := by
  have hbind : (do return [← r] : Routine (List Val)) h =
      (r h).bind fun v h => .done [v] h := rfl
  rw [Next.performOne, Next.perform, hbind, done]
  rfl


/-- A list of texts is evaluated for its use. -/
theorem reaches_texts (u : Use) (h : Heap) :
    ∀ (rest : List String) (held : List Val) (text : String),
      Reaches (.eval (.string (bytes text)) env,
          .list held (rest.map fun t => .string (bytes t)) env u :: frames, h)
        (Next.use u (held.reverse ++ (text :: rest).map .ofString) frames h) := by
  intro rest
  induction rest with
  | nil =>
    intro held text
    exact .step rfl (.step rfl (.refl _))
  | cons next rest ih =>
    intro held text
    have hrest := ih (.ofString text :: held) next
    rw [List.reverse_cons, List.append_assoc] at hrest
    exact .step rfl (.step rfl hrest)

/-- The call `redis.call(name, ...)` with texts. -/
def storeCall (name : String) (args : List String) (line : Nat) : Expr :=
  .call (.index (.global (bytes "redis") line) (.string (bytes "call")) line)
    ((name :: args).map fun text => .string (bytes text)) line

/-- **A call of the store with texts comes to ask for them.** -/
theorem reaches_storeCall (store : h.HasStore) (name : String) (args : List String) :
    Reaches (.eval (storeCall name args line) env, frames, h)
      (.asks .strict ((name :: args).map .ofString), frames, h) := by
  obtain ⟨id, hredis, hcall⟩ := store
  have hglobal : Routine.index (.table Heap.globals) (.str (bytes "redis")) h =
      .done (.table id) h := by
    have hheld : h.rawGet Heap.globals (.ofString "redis") ≠ .nil := by
      rw [hredis]
      exact Val.noConfusion
    have hindex := Routine.index_of_held hheld
    rwa [hredis] at hindex
  have hfield : Routine.index (.table id) (.str (bytes "call")) h =
      .done (.builtin .storeCall) h := by
    have hheld : h.rawGet id (.ofString "call") ≠ .nil := by
      rw [hcall]
      exact Val.noConfusion
    have hindex := Routine.index_of_held hheld
    rwa [hcall] at hindex
  -- the function is looked up, then the arguments are evaluated for its call
  refine .step rfl (.step rfl ?_)
  refine .step rfl ?_
  show Reaches (Next.performOne line (Routine.index (.table Heap.globals) _) _ h) _
  rw [Next.performOne_of_done hglobal]
  refine .step rfl (.step rfl (.step rfl ?_))
  show Reaches (Next.performOne line (Routine.index (.table id) (.str (bytes "call"))) _ h) _
  rw [Next.performOne_of_done hfield]
  refine .step rfl ?_
  exact reaches_texts (.call (.builtin .storeCall) line) h args [] name

/-! ## Functions -/

/-- The call `(function() ... end)()`. -/
def callOf (body : Block) (line : Nat) : Expr :=
  .call (.single (.function (.mk 0 false body))) [] line

/-- The heap with one more function. -/
def Heap.withFunction (h : Heap) (body : Block) (scope : List Nat) : Heap :=
  (h.newClosure ⟨.mk 0 false body, scope⟩).2

/-- A call of a function on the spot comes to call it. -/
theorem reaches_call (body : Block) (h : Heap) :
    Reaches (.eval (callOf body line) env, frames, h)
      (Next.callClosure h.closures.size [] (some line) frames (h.withFunction body env.scope)) :=
  .step rfl (.step rfl (.step rfl (.step rfl (.step rfl (.refl _)))))

theorem Heap.closure?_withFunction (h : Heap) (body : Block) (scope : List Nat) :
    (h.withFunction body scope).closure? h.closures.size = some ⟨.mk 0 false body, scope⟩ := by
  simp [Heap.closure?, Heap.withFunction, Heap.newClosure]

/-- A call whose results are the answer of the running function takes that function's place. -/
theorem callClosure_answer (body : Block) (scope : List Nat) (call : Option Nat) (l : Level)
    (h : Heap) :
    Next.callClosure h.closures.size [] (some line) (.answer :: .activation call l :: gs)
      (h.withFunction body scope) =
      (.run (.start body ⟨scope, []⟩), .activation call l :: gs, h.withFunction body scope) := by
  simp only [Next.callClosure, Heap.closure?_withFunction]
  rfl

end ScriptStore.Script
