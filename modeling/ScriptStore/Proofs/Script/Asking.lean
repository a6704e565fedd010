import ScriptStore.Script.Machine.Step

/-!
# How a script comes to ask

A script can do a great deal, but only a call of one of the two store functions makes it wait for
the store, whoever calls them: a call in the script, a metatable, a library function, a loop.

* `Machine.call?` — the call that the next step of a script makes.
* `Machine.storeCall?` — the same, if it is a call of a store function.
* `Control.asked?` — what a script that waits for the store asks for.
* `Machine.asked?_step` — **a script waits for the store after a step exactly if the step has called
  a store function**, or if it has been waiting before.
-/

namespace ScriptStore.Script

/-! ## Calls -/

/-- The function that a list of expressions is for, if it is for a call. -/
def Use.callee? : Use → Option Val
  | .call f _ => some f
  | _ => none

/-- The call that values complete for a frame. -/
def Frame.call? (vs : List Val) : Frame → Option (Val × List Val)
  | .list held [] _ u => u.callee?.map fun f => (f, held.reverse ++ vs)
  | .callee [] _ _ => some (vs.headD .nil, [])
  | .method object [] _ _ => some (vs.headD .nil, [object])
  | .begin f => some (f, [])
  | _ => none

/-- The call that the next step makes: the function and its arguments. -/
def Machine.call? (m : Machine) : Option (Val × List Val) :=
  match m.control, m.frames with
  | .call f args _, _ => some (f, args)
  | .give vs, frame :: _ => frame.call? vs
  | _, _ => none

/-- The way to the store that a value is. -/
def Val.storeAccess? : Val → Option StoreAccess
  | .builtin .storeCall => some .strict
  | .builtin .storeTry => some .lenient
  | _ => none

/-- What a call asks of the store, if it is a call of a store function. -/
def ofCall? (call : Val × List Val) : Option (StoreAccess × List Val) :=
  call.1.storeAccess?.map fun access => (access, call.2)

/-- The call of a store function that the next step makes. -/
def Machine.storeCall? (m : Machine) : Option (StoreAccess × List Val) := m.call?.bind ofCall?

/-- What a script that waits for the store asks for. -/
def Control.asked? : Control → Option (StoreAccess × List Val)
  | .asks access args => some (access, args)
  | _ => none

/-! ## Steps that do not ask -/

/-- A next state that does not wait for the store. -/
def Next.Quiet (n : Next) : Prop := ∀ frames h, (n frames h).1.asked? = none

namespace Next

theorem quiet_give (vs : List Val) : (give vs).Quiet := fun _ _ => rfl

theorem quiet_fail (line : Nat) (text : String) : (fail line text).Quiet := fun _ _ => rfl

theorem quiet_inner {call refusal : Control} (frame : Frame) (hcall : call.asked? = none)
    (hrefusal : refusal.asked? = none) : (inner frame call refusal).Quiet := by
  intro frames h
  unfold inner
  split
  · exact hrefusal
  · exact hcall

theorem asked?_ofOutcome (origin : Origin) (frames : List Frame) (o : Outcome (List Val)) :
    (ofOutcome origin frames o).1.asked? = none := by
  cases o with
  | done | failed => rfl
  | calls f args h resume => exact quiet_inner _ rfl rfl frames h

theorem quiet_perform (origin : Origin) (r : Routine (List Val)) : (perform origin r).Quiet :=
  fun frames h => asked?_ofOutcome origin frames (r h)

theorem quiet_performOne (line : Nat) (r : Routine Val) : (performOne line r).Quiet :=
  quiet_perform _ _

theorem quiet_ofOperator (line : Nat) (result : Except String Val) :
    (ofOperator line result).Quiet := by
  cases result <;> exact fun _ _ => rfl

theorem quiet_answer (vs : List Val) : (answer vs).Quiet := fun _ _ => rfl

theorem quiet_jump (label : Bytes) : (jump label).Quiet := by
  intro frames h
  unfold jump
  simp only
  split <;> rfl

theorem quiet_callClosure (id : Nat) (args : List Val) (line : Option Nat) :
    (callClosure id args line).Quiet := by
  intro frames h
  unfold callClosure
  split
  · rfl
  · simp only
    split
    · rfl
    · split <;> rfl

theorem quiet_numericRound (count : Count) (body : Block) (env : Env) :
    (numericRound count body env).Quiet := fun _ _ => rfl

theorem quiet_genericRound (loop : Iteration) (control : Val) :
    (genericRound loop control).Quiet := quiet_inner _ rfl rfl

theorem quiet_fields (id : Nat) (items : List Val) (fs : List Field) (env : Env) :
    (fields id items fs env).Quiet := by
  unfold fields
  split <;> exact fun _ _ => rfl

/-! ## Calls of store functions -/

/-- A call of a library function asks only if that is a store function. -/
theorem asked?_callBuiltin (b : Builtin) (args : List Val) (line : Option Nat)
    (frames : List Frame) (h : Heap) :
    (callBuiltin b args line frames h).1.asked? = ofCall? (.builtin b, args) := by
  unfold callBuiltin
  split
  · exact quiet_inner _ rfl rfl frames h
  · rfl
  · rfl
  · rfl
  · rename_i notCall notTry _ _
    rw [quiet_perform]
    cases b with
    | storeCall => exact (notCall rfl).elim
    | storeTry => exact (notTry rfl).elim
    | _ => rfl

theorem asked?_call (f : Val) (args : List Val) (line : Option Nat) (frames : List Frame)
    (h : Heap) : (call f args line frames h).1.asked? = ofCall? (f, args) := by
  cases f with
  | closure id => exact quiet_callClosure id args line frames h
  | builtin b => exact asked?_callBuiltin b args line frames h
  | _ => rfl

/-- Values ask only if they are for a call. -/
theorem asked?_use (u : Use) (vs : List Val) (frames : List Frame) (h : Heap) :
    (use u vs frames h).1.asked? = u.callee?.bind fun f => ofCall? (f, vs) := by
  cases u with
  | call f line => exact asked?_call f vs (some line) frames h
  | answer => exact quiet_answer vs frames h
  | declare count next => rfl
  | assign targets next line => exact quiet_perform _ _ _ h
  | numericLoop body env line =>
    have quiet : (use (.numericLoop body env line) vs).Quiet := by
      simp only [use]
      split
      · exact quiet_fail line _
      · exact quiet_give []
      · exact quiet_numericRound _ body env
    exact quiet frames h
  | genericLoop names body env line => exact quiet_genericRound _ _ frames h

/-- Expressions that are not for a call do not ask, even if there are none. -/
theorem quiet_list {u : Use} (hu : u.callee? = none) (held : List Val) (es : List Expr)
    (env : Env) : (list held es env u).Quiet := by
  intro frames h
  cases es with
  | nil => rw [list, asked?_use, hu, Option.bind_none]
  | cons e rest => rfl

theorem quiet_eval (e : Expr) (env : Env) : (eval e env).Quiet := by
  intro frames h
  cases e with
  | global name line => exact quiet_performOne line _ frames h
  | table fs => exact quiet_fields _ _ _ _ _ _
  | _ => rfl

theorem quiet_unary (op : UnaryOp) (v : Val) (line : Nat) : (unary op v line).Quiet := by
  cases op with
  | negate | complement => exact quiet_ofOperator line _
  | invert => exact quiet_give _
  | length => exact quiet_performOne line _

theorem quiet_statement (p : Position) : (statement p).Quiet := by
  unfold statement
  split
  · exact quiet_give []
  · rename_i s rest _
    cases s with
    | declare count values => exact quiet_list rfl [] values p.env
    | assign targets values line => exact quiet_list rfl [] _ p.env
    | numericLoop first limit step body line => exact fun _ _ => quiet_list rfl [] _ p.env _ _
    | genericLoop names values body line => exact fun _ _ => quiet_list rfl [] values p.env _ _
    | answer values =>
      -- a single call is evaluated in another way, and does not ask either
      rcases values with _ | ⟨e, _ | ⟨e', es⟩⟩
      · exact quiet_list rfl [] [] p.env
      all_goals cases e <;> exact fun _ _ => rfl
    | jump label => exact fun _ _ => quiet_jump label _ _
    | _ => exact fun _ _ => rfl

/-- Values for a frame ask only if they complete a call. -/
theorem asked?_resume (frame : Frame) (vs : List Val) (frames : List Frame) (h : Heap) :
    (resume frame vs frames h).1.asked? = (frame.call? vs).bind ofCall? := by
  cases frame with
  | unary op line => exact quiet_unary op _ line frames h
  | binary op left line => exact quiet_ofOperator line _ frames h
  | both | either | whileTest | leaveIf | genericStep =>
    simp only [resume]
    split <;> rfl
  | index object line => exact quiet_performOne line _ frames h
  | callee args env line =>
    cases args with
    | nil => exact asked?_use _ _ frames h
    | cons e rest => rfl
  | methodObject name args env nameLine line => exact quiet_performOne nameLine _ _ h
  | method object args env line =>
    cases args with
    | nil => exact asked?_use _ _ frames h
    | cons e rest => rfl
  | list held rest env u =>
    cases rest with
    | nil =>
      simp only [resume, asked?_use]
      cases u <;> rfl
    | cons e rest => rfl
  | item id items rest env => exact quiet_fields id _ rest env frames h
  | entry id items key line rest env =>
    simp only [resume]
    split
    · exact quiet_fields id items rest env frames _
    · rfl
    · rfl
  | numericBody count body env =>
    simp only [resume]
    cases nextCount? count <;> rfl
  | genericBody loop control => exact quiet_genericRound loop control frames h
  | routine origin resume => exact asked?_ofOutcome origin frames (resume vs h)
  | begin f => exact asked?_call f [] none frames h
  | _ => rfl

theorem quiet_unwind (v : Val) : (unwind v).Quiet := by
  intro frames h
  unfold unwind
  split
  · rfl
  · split
    · rfl
    · exact quiet_perform _ _ _ _

end Next

/-- **A script waits for the store after a step exactly if the step has called a store function**, or
if it has been waiting before. -/
theorem Machine.asked?_step (m : Machine) :
    m.step.control.asked? = m.control.asked?.or m.storeCall? := by
  obtain ⟨control, frames, heap, ticks⟩ := m
  cases control with
  | run p => exact Next.quiet_statement p frames heap
  | eval e env => exact Next.quiet_eval e env frames heap
  | give vs =>
    cases frames with
    | nil => rfl
    | cons frame frames => exact Next.asked?_resume frame vs frames heap
  | call f args line => exact Next.asked?_call f args line frames heap
  | raise v => exact Next.quiet_unwind v frames heap
  | asks | finished => rfl

end ScriptStore.Script
