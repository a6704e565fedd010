import ScriptStore.Script.Machine.State

/-!
# Steps of a running script

`Machine.step` is one step. It is a function on all states: a script that waits for the store or is
over stays as it is, and `Machine.reply` and `Machine.interrupt` are the ways in which the outside
goes on with it.

The functions below say what one kind of control does next; each answers the next state.

The language is Lua 5.4 without `_ENV`, coroutines, variables that are closed, and finalizers. Of
what a metatable may hold, only `__index`, `__newindex`, `__len`, `__tostring` and `__pairs` count:
to call a table, to compute with it, or to ask which of two comes first fails, and two tables are
equal only if they are the same.
-/

namespace ScriptStore.Script

abbrev Next := List Frame → Heap → Control × List Frame × Heap

namespace Next

def give (vs : List Val) : Next := fun frames h => (.give vs, frames, h)

def raise (v : Val) : Next := fun frames h => (.raise v, frames, h)

/-- Raises the message of an operation on a line. -/
def fail (line : Nat) (text : String) : Next := raise (placed (some line) (bytes text))

def run (p : Position) : Next := fun frames h => (.run p, frames, h)

/-- Evaluates an expression for a frame. -/
def evalFor (frame : Frame) (e : Expr) (env : Env) : Next := fun frames h =>
  (.eval e env, frame :: frames, h)

/-- Makes an inner call for a frame, unless such calls are too many. -/
def inner (frame : Frame) (call refusal : Control) : Next := fun frames h =>
  if innerLimit ≤ (level (frame :: frames)).inner then (refusal, frames, h)
  else (call, frame :: frames, h)

/-- The message of too many inner calls. -/
def tooManyCalls (line : Option Nat) : Val := placed line (bytes "C stack overflow")

/-- Goes on from where a routine stopped. -/
def ofOutcome (origin : Origin) (frames : List Frame) :
    Outcome (List Val) → Control × List Frame × Heap
  | .done vs h => (.give vs, frames, h)
  | .failed f h => (.raise (f.toVal origin frames), frames, h)
  | .calls f args h resume =>
    inner (.routine origin resume) (.call f args origin.callsOn)
      (.raise (tooManyCalls origin.callsOn)) frames h

def perform (origin : Origin) (r : Routine (List Val)) : Next := fun frames h =>
  ofOutcome origin frames (r h)

def performOne (line : Nat) (r : Routine Val) : Next :=
  perform (.operation line) do return [← r]

/-- The result of an operator. -/
def ofOperator (line : Nat) : Except String Val → Next
  | .ok v => give [v]
  | .error text => fail line text

/-! ## Ends of functions, loops and jumps -/

def answer (vs : List Val) : Next := fun frames h =>
  (.give vs, (frames.dropWhile fun f => !f.isActivation).drop 1, h)

def leave : Next := fun frames h =>
  (.give [], (frames.dropWhile fun f => !f.isLoop).drop 1, h)

/-- A place behind a label, with the variables that are in sight there. -/
def atLabel (p : Position) (rest : Block) (depth : Nat) : Position :=
  let scope := p.env.scope.drop (p.env.scope.length - depth)
  { p.withScope scope with rest }

/-- Goes on behind a label of the innermost block that has it. -/
def jump (label : Bytes) : Next := fun frames h =>
  let target? (frame : Frame) : Option Position :=
    match frame with
    | .resume p => (p.block.afterLabel? label).map fun (rest, depth) => atLabel p rest depth
    | _ => none
  match frames.findSome? target? with
  | some p => (.run p, (frames.dropWhile fun f => (target? f).isNone).drop 1, h)
  -- a source with a jump to no label does not compile
  | none => (.give [], frames, h)

/-! ## Calls -/

/-- Calls a function of the script. A call whose results are the answer of the running function
takes that function's place. -/
def callClosure (id : Nat) (args : List Val) (line : Option Nat) : Next := fun frames h =>
  match h.closure? id with
  | none => (.give [], frames, h)
  | some ⟨.mk params variadic body, captured⟩ =>
    let (scope, h) := h.declare params args captured
    let env : Env := ⟨scope, if variadic then args.drop params else []⟩
    let begin (frames : List Frame) : Control × List Frame × Heap :=
      (.run (.start body env), frames, h)
    match frames with
    -- the answering function is over, and what it has left to do with it
    | .answer :: frames => begin (frames.dropWhile fun f => !f.isActivation)
    | frames =>
      let l := level frames
      let l := { l with functions := l.functions + 1 }
      if functionLimit < l.functions then
        (.raise (placed line (bytes "stack overflow")), frames, h)
      else begin (.activation line l :: frames)

def callBuiltin (b : Builtin) (args : List Val) (line : Option Nat) : Next := fun frames h =>
  match b, args with
  | .pcall, f :: args =>
    inner (.protect line) (.call f args none) (.give [.bool false, tooManyCalls none]) frames h
  | .pcall, [] => (.raise (.str (bytes "not enough arguments to pcall")), frames, h)
  | .storeCall, args => (.asks .strict args, frames, h)
  | .storeTry, args => (.asks .lenient args, frames, h)
  | b, args => perform (.library line) (b.run args) frames h

def call (f : Val) (args : List Val) (line : Option Nat) : Next :=
  match f with
  | .closure id => callClosure id args line
  | .builtin b => callBuiltin b args line
  | v => raise (placed line (bytes (v.misuse "call")))

/-! ## Numeric loops -/

/-- The limit of an integer loop, or `none` if the loop has no rounds. A limit beyond all integers
is as good as the last one. -/
def integerLimit? (step : Int64) (limit : Number) : Option Int64 :=
  match limit with
  | .int n => some n
  | .float f =>
    match Binary64.shape f with
    | .nan => none
    | .infinite negative => beyond negative
    | .finite negative m =>
      let x := m.ratio
      let up : Bool := negative != (step < 0)
      let whole : Int := x.num / x.den
      let magnitude := if x.num % x.den ≠ 0 && up then whole + 1 else whole
      let n : Int := if negative then -magnitude else magnitude
      match int64OfInt? n with
      | some n => some n
      | none => beyond negative
where
  /-- A limit that no integer reaches. -/
  beyond (negative : Bool) : Option Int64 :=
    if negative then if step < 0 then some (Int64.ofInt (-2 ^ 63)) else none
    else if step < 0 then none else some (Int64.ofInt (2 ^ 63 - 1))

/-- The first round of a loop over integers, if it has one. -/
def integerCount? (first step : Int64) (limit : Number) : Option Count :=
  match integerLimit? step limit with
  | none => none
  | some limit =>
    let distance := if step < 0 then first.toInt - limit.toInt else limit.toInt - first.toInt
    if distance < 0 then none
    else some (.ints first (distance / step.toInt.natAbs).toNat step)

/-- Whether a round of a loop over floats is within the limit. -/
def withinLimit (current limit step : Float) : Bool :=
  if 0.0 < step then current ≤ limit else limit ≤ current

/-- The first round of a numeric loop, if it has one. It counts in integers if its start and step
are integers. -/
def firstCount (first limit step : Val) : Except String (Option Count) :=
  let refuse (what : String) (v : Val) : Except String (Option Count) :=
    .error ("bad 'for' " ++ what ++ " (number expected, got " ++ v.typeName ++ ")")
  match first, step with
  | .int first, .int step =>
    if step = 0 then .error "'for' step is zero"
    else
      match limit.toNumber? with
      | none => refuse "limit" limit
      | some limit => .ok (integerCount? first step limit)
  | first, step =>
    match limit.toNumber?, step.toNumber?, first.toNumber? with
    | none, _, _ => refuse "limit" limit
    | _, none, _ => refuse "step" step
    | _, _, none => refuse "initial value" first
    | some limit, some step, some first =>
      if step.toFloat == 0.0 then .error "'for' step is zero"
      else if withinLimit first.toFloat limit.toFloat step.toFloat then
        .ok (some (.floats first.toFloat limit.toFloat step.toFloat))
      else .ok none

def countVal : Count → Val
  | .ints current _ _ => .int current
  | .floats current _ _ => .float current

def nextCount? : Count → Option Count
  | .ints current left step =>
    match left with
    | 0 => none
    | left + 1 => some (.ints (current + step) left step)
  | .floats current limit step =>
    if withinLimit (current + step) limit step then some (.floats (current + step) limit step)
    else none

/-- Runs a round of a numeric loop. -/
def numericRound (count : Count) (body : Block) (env : Env) : Next := fun frames h =>
  let (id, h) := h.newCell (countVal count)
  (.run (.start body { env with scope := id :: env.scope }),
    .numericBody count body env :: frames, h)

/-- Calls for the next round of a generic loop. -/
def genericRound (loop : Iteration) (control : Val) : Next :=
  inner (.genericStep loop) (.call loop.step [loop.subject, control] (some loop.line))
    (.raise (tooManyCalls (some loop.line)))

/-! ## Lists of expressions -/

/-- Splits the values of an assignment into the objects and keys of its targets and the values
assigned, and assigns to the last target first. -/
def assignAll (scope : List Nat) : List Target → List Val → List Val → Routine Unit
  | [], _, _ => return ()
  | .slot i :: targets, places, values => do
    assignAll scope targets places values.tail
    Routine.change fun h => ((), h.setCell (scope.getD i 0) (values.headD .nil))
  | .global name :: targets, places, values => do
    assignAll scope targets places values.tail
    Routine.store (.table Heap.globals) (.str name) (values.headD .nil)
  | .element _ _ :: targets, places, values => do
    assignAll scope targets (places.drop 2) values.tail
    Routine.store (places.headD .nil) (places.tail.headD .nil) (values.headD .nil)

/-- The expressions that a target needs. -/
def targetExprs : Target → List Expr
  | .element object key => [.single object, .single key]
  | _ => []

def use (u : Use) (vs : List Val) : Next :=
  match u with
  | .call f line => call f vs (some line)
  | .answer => answer vs
  | .declare count next => fun frames h =>
    let (scope, h) := h.declare count vs next.env.scope
    (.run (next.withScope scope), frames, h)
  | .assign targets next line => fun frames h =>
    let places := (targets.flatMap targetExprs).length
    perform (.operation line)
      (do assignAll next.env.scope targets (vs.take places) (vs.drop places); return [])
      (.resume next :: frames) h
  | .numericLoop body env line =>
    let step := (vs[2]?).getD (.int 1)
    match firstCount (vs.headD .nil) (vs.tail.headD .nil) step with
    | .error text => fail line text
    | .ok none => give []
    | .ok (some count) => numericRound count body env
  | .genericLoop names body env line =>
    genericRound ⟨vs.headD .nil, vs.tail.headD .nil, names, body, env, line⟩
      (vs.tail.tail.headD .nil)

def list (held : List Val) (es : List Expr) (env : Env) (u : Use) : Next :=
  match es with
  | [] => use u held.reverse
  | e :: rest => evalFor (.list held rest env u) e env

/-! ## Table constructors -/

/-- How many items a constructor is known to have before its last field gives any number of them. -/
def knownItems : List Field → Nat
  | [] | [.item (.call ..)] | [.item (.method ..)] | [.item .varargs] => 0
  | .item _ :: fs => knownItems fs + 1
  | .entry .. :: fs => knownItems fs

/-- A table with room for the fields of a constructor. -/
def tableFor (fs : List Field) : Table :=
  let entries := fs.countP fun
    | .entry .. => true
    | .item _ => false
  .sized (knownItems fs) entries

/-- Puts the items of a constructor into its table. -/
def closeTable (id : Nat) (items : List Val) : Next := fun frames h =>
  (.give [.table id], frames, h.modifyTable id fun t => (t.widen items.length).fill items)

def fields (id : Nat) (items : List Val) (fs : List Field) (env : Env) : Next :=
  match fs with
  | [] => closeTable id items.reverse
  | [.item e] => evalFor (.lastItem id items) e env
  | .item e :: rest => evalFor (.item id items rest env) e env
  | .entry key value line :: rest => evalFor (.entryKey id items value line rest env) key env

/-! ## Expressions -/

def closure (f : Function) (env : Env) : Next := fun frames h =>
  let (id, h) := h.newClosure ⟨f, env.scope⟩
  (.give [.closure id], frames, h)

def eval (e : Expr) (env : Env) : Next :=
  match e with
  | .nil => give [.nil]
  | .bool b => give [.bool b]
  | .number n => give [n.toVal]
  | .string s => give [.str s]
  | .varargs => give env.varargs
  | .slot i => fun frames h => (.give [h.cell (env.scope.getD i 0)], frames, h)
  | .global name line => performOne line (Routine.index (.table Heap.globals) (.str name))
  | .index object key line => evalFor (.indexKey key env line) object env
  | .call callee args line => evalFor (.callee args env line) callee env
  | .method object name args nameLine line =>
    evalFor (.methodObject name args env nameLine line) object env
  | .function f => closure f env
  | .unary op operand line => evalFor (.unary op line) operand env
  | .binary op left right line => evalFor (.binaryRight op right env line) left env
  | .both left right => evalFor (.both right env) left env
  | .either left right => evalFor (.either right env) left env
  | .table fs => fun frames h =>
    let (id, h) := h.newTable (tableFor fs)
    fields id [] fs env frames h
  | .single e => evalFor .single e env

def unary (op : UnaryOp) (v : Val) (line : Nat) : Next :=
  match op with
  | .negate => ofOperator line v.negate
  | .invert => give [.bool !v.truthy]
  | .length => performOne line (Routine.lengthOf v)
  | .complement => ofOperator line v.complement

/-! ## Statements -/

/-- Runs the next statement of a block. -/
def statement (p : Position) : Next :=
  match p.rest with
  | [] => give []
  | s :: rest =>
    let next : Position := { p with rest }
    let env := p.env
    match s with
    | .declare count values => list [] values env (.declare count next)
    | .assign targets values line =>
      list [] (targets.flatMap targetExprs ++ values) env (.assign targets next line)
    | .perform e => evalFor (.resume next) e env
    | .block body => fun frames h => (.run (.start body env), .resume next :: frames, h)
    | .whileLoop condition body => fun frames h =>
      evalFor (.whileTest condition body env) condition env (.resume next :: frames) h
    | .repeatLoop body => fun frames h =>
      (.run (.start body env), .repeatBody body env :: .resume next :: frames, h)
    | .leaveIf condition => evalFor (.leaveIf next) condition env
    | .choice condition yes no => fun frames h =>
      evalFor (.choice yes no env) condition env (.resume next :: frames) h
    | .numericLoop first limit step body line => fun frames h =>
      list [] ([first, limit] ++ step.toList |>.map .single) env (.numericLoop body env line)
        (.resume next :: frames) h
    | .genericLoop names values body line => fun frames h =>
      list [] values env (.genericLoop names body env line) (.resume next :: frames) h
    | .localFunction f => fun frames h =>
      -- the function has itself in scope
      let (cell, h) := h.newCell .nil
      let scope := cell :: env.scope
      let (id, h) := h.newClosure ⟨f, scope⟩
      (.run (next.withScope scope), frames, h.setCell cell (.closure id))
    | .answer [.call callee args line] => evalFor .answer (.call callee args line) env
    | .answer [.method object name args nameLine line] =>
      evalFor .answer (.method object name args nameLine line) env
    | .answer values => list [] values env .answer
    | .leave => leave
    | .jump label => fun frames h => jump label (.resume p :: frames) h
    | .label _ _ => run next

/-! ## Values for frames -/

/-- Gives values to a frame. -/
def resume (frame : Frame) (vs : List Val) : Next :=
  let v := vs.headD .nil
  match frame with
  | .unary op line => unary op v line
  | .binaryRight op right env line => evalFor (.binary op v line) right env
  | .binary op left line => ofOperator line (Val.binary op left v)
  | .both right env => if v.truthy then evalFor .single right env else give [v]
  | .either right env => if v.truthy then give [v] else evalFor .single right env
  | .single => give [v]
  | .indexKey key env line => evalFor (.index v line) key env
  | .index object line => performOne line (Routine.index object v)
  | .callee args env line => list [] args env (.call v line)
  | .methodObject name args env nameLine line => fun frames h =>
    performOne nameLine (Routine.index v (.str name)) (.method v args env line :: frames) h
  | .method object args env line => list [object] args env (.call v line)
  | .list held [] _ u => use u (held.reverse ++ vs)
  | .list held rest env u => list (v :: held) rest env u
  | .item id items rest env => fields id (v :: items) rest env
  | .lastItem id items => closeTable id (items.reverse ++ vs)
  | .entryKey id items value line rest env => evalFor (.entry id items v line rest env) value env
  | .entry id items key line rest env => fun frames h =>
    match Routine.store (.table id) key v h with
    | .done _ h => fields id items rest env frames h
    | .failed f h => (.raise (f.toVal (.operation line) frames), frames, h)
    -- a table under construction has no metatable, so no function is called
    | .calls .. => (.give [], frames, h)
  | .resume next => run next
  | .choice yes no env => run (.start (if v.truthy then yes else no) env)
  | .whileTest condition body env => fun frames h =>
    if v.truthy then (.run (.start body env), .whileBody condition body env :: frames, h)
    else (.give [], frames, h)
  | .whileBody condition body env => evalFor (.whileTest condition body env) condition env
  | .repeatBody body env => fun frames h =>
    (.run (.start body env), .repeatBody body env :: frames, h)
  | .leaveIf next => if v.truthy then leave else run next
  | .numericBody count body env =>
    match nextCount? count with
    | some count => numericRound count body env
    | none => give []
  | .genericStep loop => fun frames h =>
    if v.isNil then (.give [], frames, h)
    else
      let (scope, h) := h.declare loop.names vs loop.env.scope
      (.run (.start loop.body { loop.env with scope }), .genericBody loop v :: frames, h)
  | .genericBody loop control => genericRound loop control
  | .answer => answer vs
  | .activation _ _ => give vs
  | .protect _ => give (.bool true :: vs)
  | .routine origin resume => fun frames h => ofOutcome origin frames (resume vs h)
  | .begin f => call f [] none
  | .report => fun _ h => (.finished (.error (Routine.lastWords h v)), [], h)

/-- Raises a value: the innermost protection catches it. One that nothing catches is put into
words, which may take a function of the script; should that fail, its plain words stand. A failure
has its words already. -/
def unwind (v : Val) : Next := fun frames h =>
  match frames.dropWhile fun f => !f.isProtection with
  | _ :: frames => (.give [.bool false, v], frames, h)
  | [] =>
    if v.isFailure || frames.any Frame.isReport then
      (.finished (.error (Routine.lastWords h v)), [], h)
    else
      perform (.library none) (do return [.str (← Routine.tostring v)]) [.report] h

/-- What follows a control. -/
def after (control : Control) : Next :=
  match control with
  | .run p => statement p
  | .eval e env => eval e env
  | .give vs => fun frames h =>
    match frames with
    | [] => (.finished (.ok vs), [], h)
    | frame :: frames => resume frame vs frames h
  | .call f args line => call f args line
  | .raise v => unwind v
  | .asks access args => fun frames h => (.asks access args, frames, h)
  | .finished ending => fun frames h => (.finished ending, frames, h)

end Next

/-- Whether a control counts toward the next look at the clock: every statement and every expression
does. -/
def Control.ticks : Control → Nat
  | .run _ | .eval _ _ => 1
  | _ => 0

namespace Machine

def step (m : Machine) : Machine :=
  match m with
  | ⟨control, frames, heap, ticks⟩ =>
    let ticks := ticks + control.ticks
    let (control, frames, heap) := Next.after control frames heap
    ⟨control, frames, heap, ticks⟩

/-- A script at its beginning. Its environment is prepared before it is called, which may take
functions of earlier scripts. -/
def start (chunk : Chunk) (prepare : Routine Unit) (heap : Heap) : Machine :=
  let (id, heap) := heap.newClosure ⟨chunk.function, []⟩
  let (control, frames, heap) := Next.perform (.library none) (do prepare; return [])
    [.begin (.closure id)] heap
  ⟨control, frames, heap, 0⟩

/-- Goes on with the results that the store gave. -/
def reply (m : Machine) (vs : List Val) (heap : Heap) : Machine :=
  { m with control := .give vs, heap }

/-- Goes on with a failure that comes from outside the script. -/
def interrupt (m : Machine) (message : Bytes) : Machine :=
  let (id, heap) := m.heap.newFailure message
  { m with control := .raise (.failure id), heap }

end Machine

end ScriptStore.Script
