import Mathlib.Data.List.TakeWhile
import ScriptStore.Proofs.Script.Keeping

/-!
# Steps and failures

A script can catch a failure, keep it and raise it again, but it cannot change what it says.

* `Frame.Keeps` — a routine that waits for a function leaves the messages of failures alone when it
  goes on.
* `Next.Keeps` — so does what comes next, whatever waits; one lemma for each of the functions of
  which a step is made.
* `Machine.failures_step` — **a step of a script leaves the messages of failures alone**, and
  `Machine.Keeps.step` — so will the next one.
* `Heap.Remembers` — what a failure says in one heap it says in another.
-/

namespace ScriptStore.Script

/-- A frame leaves the failures as they are when it goes on by itself. -/
def Frame.Keeps : Frame → Prop
  | .routine _ next => ∀ results h, (next results h).Keeps h.failures
  | _ => True

namespace Next

/-- A state that has failures and goes on to leave them as they are. -/
structure Kept (failures : Array Bytes) (s : Control × List Frame × Heap) : Prop where
  failures : s.2.2.failures = failures
  frames : ∀ frame ∈ s.2.1, frame.Keeps

/-- What comes next leaves the failures as they are, as does what waits. -/
def Keeps (n : Next) : Prop :=
  ∀ frames h, (∀ frame ∈ frames, frame.Keeps) → Kept h.failures (n frames h)

variable {frames : List Frame} {frame : Frame} {h : Heap}

/-- One more frame. -/
theorem keeps_cons (keeps : frame.Keeps) (all : ∀ frame ∈ frames, frame.Keeps) :
    ∀ f ∈ frame :: frames, f.Keeps :=
  List.forall_mem_cons.mpr ⟨keeps, all⟩

/-- What is left when the innermost frames are gone. -/
theorem keeps_dropWhile (all : ∀ frame ∈ frames, frame.Keeps) (p : Frame → Bool) (n : Nat) :
    ∀ frame ∈ (frames.dropWhile p).drop n, frame.Keeps :=
  fun frame mem => all frame ((List.dropWhile_suffix p).subset (List.mem_of_mem_drop mem))

theorem keeps_give (vs : List Val) : (give vs).Keeps := fun _ _ all => ⟨rfl, all⟩

theorem keeps_raise (v : Val) : (raise v).Keeps := fun _ _ all => ⟨rfl, all⟩

theorem keeps_fail (line : Nat) (text : String) : (fail line text).Keeps := keeps_raise _

theorem keeps_run (p : Position) : (run p).Keeps := fun _ _ all => ⟨rfl, all⟩

theorem keeps_evalFor (frame : Frame) (keeps : frame.Keeps) (e : Expr) (env : Env) :
    (evalFor frame e env).Keeps :=
  fun _ _ all => ⟨rfl, keeps_cons keeps all⟩

theorem keeps_inner (frame : Frame) (keeps : frame.Keeps) (call refusal : Control) :
    (inner frame call refusal).Keeps := by
  intro frames h all
  unfold inner
  split
  · exact ⟨rfl, all⟩
  · exact ⟨rfl, keeps_cons keeps all⟩

theorem kept_ofOutcome {failures : Array Bytes} {o : Outcome (List Val)} (origin : Origin)
    (all : ∀ frame ∈ frames, frame.Keeps) (keeps : o.Keeps failures) :
    Kept failures (ofOutcome origin frames o) := by
  cases o with
  | done vs h | failed f h => exact ⟨keeps, all⟩
  | calls f args h resume =>
    obtain ⟨hsame, hlater⟩ := keeps
    rw [← hsame]
    exact keeps_inner (.routine origin resume) hlater _ _ frames h all

theorem keeps_perform (origin : Origin) {r : Routine (List Val)} (keeps : r.Keeps) :
    (perform origin r).Keeps := fun _ h all => kept_ofOutcome origin all (keeps h)

theorem keeps_performOne (line : Nat) {r : Routine Val} (keeps : r.Keeps) :
    (performOne line r).Keeps :=
  keeps_perform _ (.bind keeps fun _ => Routine.keeps_pure _)

theorem keeps_ofOperator (line : Nat) (result : Except String Val) :
    (ofOperator line result).Keeps := by
  cases result with
  | ok v => exact keeps_give _
  | error text => exact keeps_fail _ _

theorem keeps_answer (vs : List Val) : (answer vs).Keeps :=
  fun _ _ all => ⟨rfl, keeps_dropWhile all _ 1⟩

theorem keeps_leave : leave.Keeps := fun _ _ all => ⟨rfl, keeps_dropWhile all _ 1⟩

theorem keeps_jump (label : Bytes) : (jump label).Keeps := by
  intro frames h all
  unfold jump
  simp only
  split
  · exact ⟨rfl, keeps_dropWhile all _ 1⟩
  · exact ⟨rfl, all⟩

/-! ## Calls -/

theorem failures_declare (count : Nat) (values : List Val) (scope : List Nat) (h : Heap) :
    (h.declare count values scope).2.failures = h.failures := by
  induction count generalizing values scope h with
  | zero => rfl
  | succ count ih => exact ih _ _ _

theorem keeps_callClosure (id : Nat) (args : List Val) (line : Option Nat) :
    (callClosure id args line).Keeps := by
  intro frames h all
  unfold callClosure
  split
  · exact ⟨rfl, all⟩
  · simp only
    split
    · exact ⟨failures_declare _ _ _ _, keeps_dropWhile (List.forall_mem_cons.mp all).2 _ 0⟩
    · split
      · exact ⟨failures_declare _ _ _ _, all⟩
      · exact ⟨failures_declare _ _ _ _, keeps_cons trivial all⟩

theorem keeps_callBuiltin (b : Builtin) (args : List Val) (line : Option Nat) :
    (callBuiltin b args line).Keeps := by
  intro frames h all
  unfold callBuiltin
  split
  · exact keeps_inner (.protect line) trivial _ _ frames h all
  · exact ⟨rfl, all⟩
  · exact ⟨rfl, all⟩
  · exact ⟨rfl, all⟩
  · exact keeps_perform _ (Library.keeps_run _ _) frames h all

theorem keeps_call (f : Val) (args : List Val) (line : Option Nat) : (call f args line).Keeps := by
  cases f with
  | closure id => exact keeps_callClosure id args line
  | builtin b => exact keeps_callBuiltin b args line
  | _ => exact keeps_raise _

/-! ## Loops and assignments -/

theorem keeps_numericRound (count : Count) (body : Block) (env : Env) :
    (numericRound count body env).Keeps := fun _ _ all => ⟨rfl, keeps_cons trivial all⟩

theorem keeps_genericRound (loop : Iteration) (control : Val) :
    (genericRound loop control).Keeps := keeps_inner (.genericStep loop) trivial _ _

theorem keeps_assignAll (scope : List Nat) (targets : List Target) (places values : List Val) :
    (assignAll scope targets places values).Keeps := by
  induction targets generalizing places values with
  | nil => exact Routine.keeps_pure _
  | cons target targets ih =>
    cases target with
    | slot i => exact .bind (ih _ _) fun _ => Routine.keeps_change fun _ => rfl
    | global name => exact .bind (ih _ _) fun _ => Routine.keeps_store _ _ _
    | element object key => exact .bind (ih _ _) fun _ => Routine.keeps_store _ _ _

theorem keeps_use (u : Use) (vs : List Val) : (use u vs).Keeps := by
  intro frames h all
  cases u with
  | call f line => exact keeps_call f vs _ frames h all
  | answer => exact keeps_answer vs frames h all
  | declare count next => exact ⟨failures_declare _ _ _ _, all⟩
  | assign targets next line =>
    exact keeps_perform _ (.bind (keeps_assignAll _ _ _ _) fun _ => Routine.keeps_pure _) _ h
      (keeps_cons trivial all)
  | numericLoop body env line =>
    have hloop : (use (.numericLoop body env line) vs).Keeps := by
      simp only [use]
      split
      · exact keeps_fail _ _
      · exact keeps_give _
      · exact keeps_numericRound _ _ _
    exact hloop frames h all
  | genericLoop names body env line => exact keeps_genericRound _ _ frames h all

theorem keeps_list (held : List Val) (es : List Expr) (env : Env) (u : Use) :
    (list held es env u).Keeps := by
  cases es with
  | nil => exact keeps_use u _
  | cons e rest => exact keeps_evalFor (.list held rest env u) trivial e env

/-! ## Expressions -/

theorem keeps_closeTable (id : Nat) (items : List Val) : (closeTable id items).Keeps :=
  fun _ _ all => ⟨rfl, all⟩

theorem keeps_fields (id : Nat) (items : List Val) (fs : List Field) (env : Env) :
    (fields id items fs env).Keeps := by
  unfold fields
  split
  · exact keeps_closeTable _ _
  all_goals exact fun _ _ all => ⟨rfl, keeps_cons trivial all⟩

theorem keeps_eval (e : Expr) (env : Env) : (eval e env).Keeps := by
  intro frames h all
  cases e with
  | global name line => exact keeps_performOne _ (Routine.keeps_index _ _) frames h all
  | table fs => exact keeps_fields _ _ fs env frames (h.newTable (tableFor fs)).2 all
  | nil | bool | number | string | varargs | slot | function => exact ⟨rfl, all⟩
  | _ => exact ⟨rfl, keeps_cons trivial all⟩

theorem keeps_unary (op : UnaryOp) (v : Val) (line : Nat) : (unary op v line).Keeps := by
  cases op with
  | negate | complement => exact keeps_ofOperator line _
  | invert => exact keeps_give _
  | length => exact keeps_performOne line (Routine.keeps_lengthOf v)

/-! ## Statements -/

theorem keeps_statement (p : Position) : (statement p).Keeps := by
  unfold statement
  split
  · exact keeps_give []
  · rename_i s rest _
    cases s with
    | declare count values => exact keeps_list [] values p.env _
    | assign targets values line => exact keeps_list [] _ p.env _
    | numericLoop first limit step body line =>
      exact fun _ h all => keeps_list [] _ p.env _ _ h (keeps_cons trivial all)
    | genericLoop names values body line =>
      exact fun _ h all => keeps_list [] values p.env _ _ h (keeps_cons trivial all)
    | answer values =>
      -- a single call is evaluated in another way
      rcases values with _ | ⟨e, _ | ⟨e', es⟩⟩
      · exact keeps_list [] [] p.env _
      all_goals
        cases e <;> first
          | exact keeps_list [] _ p.env _
          | exact keeps_evalFor .answer trivial _ p.env
    | leave => exact keeps_leave
    | jump label => exact fun _ h all => keeps_jump label _ h (keeps_cons trivial all)
    | label => exact keeps_run _
    | localFunction f => exact fun _ _ all => ⟨rfl, all⟩
    | perform | block | leaveIf => exact fun _ _ all => ⟨rfl, keeps_cons trivial all⟩
    | whileLoop | repeatLoop | choice =>
      exact fun _ _ all => ⟨rfl, keeps_cons trivial (keeps_cons trivial all)⟩

/-! ## Frames -/

theorem keeps_resume (frame : Frame) (vs : List Val) (keeps : frame.Keeps) :
    (resume frame vs).Keeps := by
  intro frames h all
  cases frame with
  | unary op line => exact keeps_unary op _ line frames h all
  | binary op left line => exact keeps_ofOperator line _ frames h all
  | both right env | either right env =>
    simp only [resume]
    split
    · first
        | exact keeps_evalFor .single trivial right env frames h all
        | exact keeps_give _ frames h all
    · first
        | exact keeps_give _ frames h all
        | exact keeps_evalFor .single trivial right env frames h all
  | index object line => exact keeps_performOne line (Routine.keeps_index _ _) frames h all
  | callee args env line => exact keeps_list [] args env _ frames h all
  | methodObject name args env nameLine line =>
    exact keeps_performOne nameLine (Routine.keeps_index _ _) _ h (keeps_cons trivial all)
  | method object args env line => exact keeps_list [object] args env _ frames h all
  | list held rest env u =>
    cases rest with
    | nil => exact keeps_use u _ frames h all
    | cons e rest => exact keeps_list (vs.headD .nil :: held) (e :: rest) env u frames h all
  | item id items rest env => exact keeps_fields id _ rest env frames h all
  | entry id items key line rest env =>
    have hstore := Routine.keeps_store (.table id) key (vs.headD .nil) h
    simp only [resume]
    split
    · rename_i h' hdone
      rw [hdone] at hstore
      have hsame : h'.failures = h.failures := hstore
      rw [← hsame]
      exact keeps_fields id items rest env frames h' all
    · rename_i f h' hfailed
      rw [hfailed] at hstore
      exact ⟨hstore, all⟩
    · exact ⟨rfl, all⟩
  | whileTest condition body env =>
    simp only [resume]
    split
    · exact ⟨rfl, keeps_cons trivial all⟩
    · exact ⟨rfl, all⟩
  | leaveIf next =>
    simp only [resume]
    split
    · exact keeps_leave frames h all
    · exact keeps_run next frames h all
  | numericBody count body env =>
    simp only [resume]
    cases nextCount? count with
    | some next => exact keeps_numericRound next body env frames h all
    | none => exact keeps_give [] frames h all
  | genericStep loop =>
    simp only [resume]
    split
    · exact ⟨rfl, all⟩
    · exact ⟨failures_declare _ _ _ _, keeps_cons trivial all⟩
  | genericBody loop control => exact keeps_genericRound loop control frames h all
  | answer => exact keeps_answer vs frames h all
  | routine origin resume => exact kept_ofOutcome origin all (keeps vs h)
  | begin f => exact keeps_call f [] none frames h all
  | report => exact ⟨rfl, List.forall_mem_nil _⟩
  | lastItem => exact keeps_closeTable _ _ frames h all
  | single | resume | choice | activation | protect => exact ⟨rfl, all⟩
  | binaryRight | indexKey | entryKey | whileBody | repeatBody =>
    exact ⟨rfl, keeps_cons trivial all⟩

theorem keeps_unwind (v : Val) : (unwind v).Keeps := by
  intro frames h all
  unfold unwind
  split
  · rename_i frame rest hrest
    have hall := keeps_dropWhile all (fun f => !f.isProtection) 1
    rw [hrest] at hall
    exact ⟨rfl, hall⟩
  · split
    · exact ⟨rfl, List.forall_mem_nil _⟩
    · refine keeps_perform _ (.bind (Routine.keeps_tostring v) fun _ => Routine.keeps_pure _) _ h ?_
      exact keeps_cons trivial (List.forall_mem_nil _)

theorem keeps_after (control : Control) : (after control).Keeps := by
  intro frames h all
  cases control with
  | run p => exact keeps_statement p frames h all
  | eval e env => exact keeps_eval e env frames h all
  | give vs =>
    cases frames with
    | nil => exact ⟨rfl, all⟩
    | cons frame frames =>
      obtain ⟨hframe, hrest⟩ := List.forall_mem_cons.mp all
      exact keeps_resume frame vs hframe frames h hrest
  | call f args line => exact keeps_call f args line frames h all
  | raise v => exact keeps_unwind v frames h all
  | asks | finished => exact ⟨rfl, all⟩

end Next

/-! ## Machines -/

namespace Machine

variable {m : Machine}

/-- Whatever waits in a script leaves the failures as they are when it goes on. -/
def Keeps (m : Machine) : Prop := ∀ frame ∈ m.frames, frame.Keeps

theorem Keeps.step (keeps : m.Keeps) : m.step.Keeps :=
  (Next.keeps_after m.control m.frames m.heap keeps).frames

/-- **A step of a script leaves the messages of failures alone.** -/
theorem failures_step (keeps : m.Keeps) : m.step.heap.failures = m.heap.failures :=
  (Next.keeps_after m.control m.frames m.heap keeps).failures

theorem keeps_start (chunk : Chunk) {prepare : Routine Unit} (keeps : prepare.Keeps)
    (heap : Heap) : (start chunk prepare heap).Keeps := by
  let h := (heap.newClosure ⟨chunk.function, []⟩)
  have hperform := Next.keeps_perform (.library none) (.bind keeps fun _ => Routine.keeps_pure [])
    [.begin (.closure h.1)] h.2 (Next.keeps_cons trivial (List.forall_mem_nil _))
  exact hperform.frames

/-- An answer of the store changes nothing that waits. -/
theorem Keeps.answer (keeps : m.Keeps) (access : StoreAccess) (outcome : Except Error Value) :
    (m.answer access outcome).Keeps := by
  cases outcome with
  | ok reply => exact keeps
  | error e => cases access <;> exact keeps

end Machine

/-! ## Messages -/

/-- Failures say in one heap what they have said in another. -/
structure Heap.Remembers (h h' : Heap) : Prop where
  size : h.failures.size ≤ h'.failures.size
  failure : ∀ id < h.failures.size, h'.failure id = h.failure id

namespace Heap.Remembers

variable {h h' h'' : Heap}

theorem of_failures (same : h'.failures = h.failures) : h.Remembers h' where
  size := by rw [same]
  failure id _ := by rw [Heap.failure, Heap.failure, same]

theorem trans (first : h.Remembers h') (second : h'.Remembers h'') : h.Remembers h'' where
  size := Nat.le_trans first.size second.size
  failure id hid :=
    (second.failure id (Nat.lt_of_lt_of_le hid first.size)).trans (first.failure id hid)

theorem newFailure (h : Heap) (message : Bytes) : h.Remembers (h.newFailure message).2 where
  size := by simp [Heap.newFailure]
  failure id hid := by
    simp only [Heap.failure, Heap.newFailure, Array.getD_eq_getD_getElem?, Array.getElem?_push]
    rw [if_neg (Nat.ne_of_lt hid)]

end Heap.Remembers

end ScriptStore.Script
