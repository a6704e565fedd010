import Mathlib
import ScriptStore.Proofs.Script.Pieces
import ScriptStore.Proofs.Script.Reaches

/-!
# Scripts that pass a reply on

The scripts that run one command and answer with the reply, through however many functions, as
programs and as the source texts that compile to them.

* `Wrapping`, `Wrapping.wrap` — a function around a block, which hands on what the block answers.
* `relay`, `relaySource` — the program and its source.
* `Token.Ends` — what may stand behind an expression.
* `expressions_texts`, `suffixed_storeCall`, `suffixed_callOf`, `statements_answer`,
  `statements_kept` — how the constructs of such a source are read, one lemma for each.
* `statements_relayPieces` — so its pieces are read as the block of the program, by induction on the
  functions around the call.
* `ofSource_relaySource` — **the source compiles to the program**.
-/

namespace ScriptStore.Script

open Parse

/-! ## Programs and sources -/

/-- A function around a block: its results are the answer at once, or they are kept in a variable on
the way. -/
inductive Wrapping where
  | tail (line : Nat)
  | kept (line : Nat)

/-- Whether the function is still running while the block runs. A call whose results are the answer
takes the place of the function that makes it. -/
def Wrapping.isKept : Wrapping → Bool
  | tail _ => false
  | kept _ => true

def Wrapping.line : Wrapping → Nat
  | tail line | kept line => line

/-- `return (function() ... end)()`, or `local r = (function() ... end)() return r`. -/
def Wrapping.wrap : Wrapping → Block → Block
  | tail line, body => [.answer [callOf body line]]
  | kept line, body => [.declare 1 [callOf body line], .answer [.slot 0]]

/-- A block in functions, the outermost first. -/
def wrapAll (wrappings : List Wrapping) (body : Block) : Block :=
  wrappings.foldr Wrapping.wrap body

/-- A script that runs a command, in functions, and answers with the reply. -/
def relay (wrappings : List Wrapping) (name : String) (args : List String) (line : Nat) : Chunk :=
  ⟨wrapAll wrappings [.answer [storeCall name args line]]⟩

/-- Texts with commas between. -/
def textPieces (text : String) (texts : List String) : List Piece :=
  .text text :: texts.flatMap fun text => [.fixed ",", .text text]

/-- `redis.call(name, ...)`. -/
def storeCallPieces (name : String) (args : List String) : List Piece :=
  [.name "redis", .fixed ".", .name "call", .fixed "("] ++ textPieces name args ++ [.fixed ")"]

/-- A call of a function on the spot. -/
def callOfPieces (body : List Piece) : List Piece :=
  [.fixed "(", .fixed "function", .fixed "(", .fixed ")"] ++ body ++
    [.fixed "end", .fixed ")", .fixed "(", .fixed ")"]

def Wrapping.pieces : Wrapping → List Piece → List Piece
  | tail _, body => .fixed "return" :: callOfPieces body
  | kept _, body => [.fixed "local", .name "r", .fixed "="] ++ callOfPieces body ++
      [.fixed "return", .name "r"]

/-- The pieces of a script that runs a command, in functions, and answers with the reply. -/
def relayPieces (wrappings : List Wrapping) (name : String) (args : List String) : List Piece :=
  wrappings.foldr Wrapping.pieces (.fixed "return" :: storeCallPieces name args)

/-- The source of such a script on one line. -/
def relaySource (wrappings : List Wrapping) (name : String) (args : List String) : String :=
  sourceOf (relayPieces wrappings name args)

/-! ## Tokens -/

/-- A reserved word or an operator as a token of the first line. -/
def Token.word (s : String) : Token := Piece.token (.fixed s)

def Token.name (s : String) : Token := Piece.token (.name s)

def Token.text (s : String) : Token := Piece.token (.text s)

/-- The end of a source of one line. -/
def Token.last : Token := ⟨.finish, [], 1⟩

/-- What may stand behind an expression. -/
inductive Token.Ends : Token → Prop where
  | comma : Ends (.word ",")
  | close : Ends (.word ")")
  | answer : Ends (.word "return")
  | done : Ends (.word "end")
  | last : Ends .last

theorem Token.word_ne {s s' : String} (ne : s ≠ s') : word s ≠ word s' := by
  intro h
  injection h with hkind
  injection hkind with hs
  exact ne hs

/-- What may stand behind the last statement of a block. -/
inductive Token.EndsBlock : Token → Prop where
  | done : EndsBlock (.word "end")
  | last : EndsBlock .last

theorem Token.EndsBlock.ends {t : Token} (ends : t.EndsBlock) : t.Ends := by
  cases ends with
  | done => exact .done
  | last => exact .last

theorem Token.EndsBlock.ne_comma {t : Token} (ends : t.EndsBlock) : t ≠ .word "," := by
  cases ends with
  | done => exact word_ne (by decide)
  | last =>
    intro h
    injection h with hkind
    cases hkind

/-- What stands at the beginning of a block. -/
inductive Token.Begins : Token → Prop where
  | answer : Begins (.word "return")
  | declare : Begins (.word "local")

/-- What may stand at the beginning of a variable or a call. -/
inductive Token.Opens : Token → Prop where
  | name (s : String) : Opens (.name s)
  | paren : Opens (.word "(")

/-- A reading of a source of one line, outside of loops and without jumps. -/
def Reading.oneLine (tokens : List Token) (locals : List LocalName) (variadic : Bool)
    (nesting : Nat) : Reading :=
  ⟨tokens, 1, locals, 0, variadic, 0, [], [], 0, nesting⟩

/-! ## Expressions -/

section Expressions

variable {t : Token} {ts rest : List Token} {locals : List LocalName} {variadic : Bool}
  {n : Nat} {e : Expr}

theorem Parse.bind_ok {α β : Type} {p : Parse α} {f : α → Parse β} {r r' : Reading} {a : α}
    (h : p r = .ok (a, r')) : (p >>= f) r = f a r' := by
  show (p r).bind (fun x => f x.1 x.2) = _
  rw [h]
  rfl

/-- What is not too deep is read as it is. -/
theorem nested_ok {α : Type} {p : Parse α} {a : α} {ts' : List Token}
    {locals' : List LocalName} (shallow : n + 1 < nestingLimit)
    (h : p (.oneLine ts locals variadic (n + 1)) = .ok (a, .oneLine ts' locals' variadic (n + 1))) :
    nested p (.oneLine ts locals variadic n) = .ok (a, .oneLine ts' locals' variadic n) := by
  have hn : ¬ nestingLimit ≤ (Reading.oneLine ts locals variadic n).nesting + 1 :=
    Nat.not_le.mpr shallow
  have hget : (get : Parse Reading) (.oneLine ts locals variadic n) =
      .ok (.oneLine ts locals variadic n, .oneLine ts locals variadic n) := rfl
  have hdeeper : (modify fun r => { r with nesting := n + 1 } : Parse Unit)
      (.oneLine ts locals variadic n) = .ok ((), .oneLine ts locals variadic (n + 1)) := rfl
  refine (bind_ok hget).trans ?_
  rw [if_neg hn]
  exact (bind_ok hdeeper).trans (bind_ok h)

theorem infixes_of_ends (ends : t.Ends) (e : Expr) (fuel limit : Nat) :
    infixes (fuel + 1) limit e (.oneLine (t :: ts) locals variadic n) =
      .ok (e, .oneLine (t :: ts) locals variadic n) := by
  rw [infixes]
  cases ends <;> rfl

theorem suffixes_of_ends (ends : t.Ends) (e : Expr) (fuel : Nat) :
    suffixes (fuel + 1) e (.oneLine (t :: ts) locals variadic n) =
      .ok (e, .oneLine (t :: ts) locals variadic n) := by
  rw [suffixes]
  cases ends <;> rfl

/-- An expression without operators around it. -/
theorem expression_of_simple (shallow : n + 1 < nestingLimit)
    (plain : t.fixed?.bind unaryOp? = none) {t' : Token} (ends : t'.Ends) {fuel : Nat}
    (h : simple (fuel + 1) (.oneLine (t :: ts) locals variadic (n + 1)) =
      .ok (e, .oneLine (t' :: rest) locals variadic (n + 1))) :
    expression (fuel + 2) 0 (.oneLine (t :: ts) locals variadic n) =
      .ok (e, .oneLine (t' :: rest) locals variadic n) := by
  have hcurrent : current (.oneLine (t :: ts) locals variadic (n + 1)) =
      .ok (t, .oneLine (t :: ts) locals variadic (n + 1)) := rfl
  rw [expression]
  refine nested_ok shallow ((bind_ok hcurrent).trans ?_)
  simp only [plain]
  exact (bind_ok h).trans (infixes_of_ends ends _ _ _)

/-- A text is an expression. -/
theorem expression_text (shallow : n + 1 < nestingLimit) (ends : t.Ends) (s : String)
    (fuel : Nat) :
    expression (fuel + 2) 0 (.oneLine (.text s :: t :: ts) locals variadic n) =
      .ok (.string (bytes s), .oneLine (t :: ts) locals variadic n) := by
  refine expression_of_simple shallow rfl ends ?_
  rw [simple]
  cases ends <;> rfl

/-- A variable or a call is an expression. -/
theorem expression_of_suffixed (shallow : n + 1 < nestingLimit) (opens : t.Opens)
    {t' : Token} (ends : t'.Ends) {fuel : Nat}
    (h : suffixed fuel (.oneLine (t :: ts) locals variadic (n + 1)) =
      .ok (e, .oneLine (t' :: rest) locals variadic (n + 1))) :
    expression (fuel + 2) 0 (.oneLine (t :: ts) locals variadic n) =
      .ok (e, .oneLine (t' :: rest) locals variadic n) := by
  have hplain : t.fixed?.bind unaryOp? = none := by cases opens <;> rfl
  refine expression_of_simple shallow hplain ends ?_
  rw [simple]
  cases opens <;> exact h

/-- An expression stands alone if no comma follows. -/
theorem expressions_one (ends : t.Ends) (last : t ≠ .word ",") {fuel : Nat}
    (h : expression fuel 0 (.oneLine ts locals variadic n) =
      .ok (e, .oneLine (t :: rest) locals variadic n)) :
    expressions (fuel + 1) (.oneLine ts locals variadic n) =
      .ok ([e], .oneLine (t :: rest) locals variadic n) := by
  rw [expressions]
  refine (bind_ok h).trans ?_
  cases ends with
  | comma => exact absurd rfl last
  | _ => rfl

/-- Texts with commas between. -/
theorem expressions_texts (shallow : n + 1 < nestingLimit) (args : List String) :
    ∀ (name : String) (fuel : Nat), args.length + 3 ≤ fuel →
      expressions fuel (.oneLine ((textPieces name args).map Piece.token ++ .word ")" :: ts) locals
          variadic n) =
        .ok ((name :: args).map fun text => .string (bytes text),
          .oneLine (.word ")" :: ts) locals variadic n) := by
  induction args with
  | nil =>
    intro name fuel enough
    obtain ⟨fuel, rfl⟩ := Nat.exists_eq_add_of_le' enough
    have hne : Token.word ")" ≠ .word "," := Token.word_ne (by decide)
    exact expressions_one .close hne (expression_text shallow .close name fuel)
  | cons arg args ih =>
    intro name fuel enough
    obtain ⟨fuel, rfl⟩ := Nat.exists_eq_add_of_le' enough
    let behind := (textPieces arg args).map Piece.token ++ .word ")" :: ts
    have hcomma : accept "," (.oneLine (.word "," :: behind) locals variadic n) =
        .ok (true, .oneLine behind locals variadic n) := rfl
    have hrest := ih arg (fuel + (args.length + 3)) (Nat.le_add_left ..)
    show expressions (fuel + (args.length + 3) + 1) _ = _
    rw [expressions]
    refine (bind_ok (expression_text shallow .comma name _)).trans ?_
    exact (bind_ok hcomma).trans (bind_ok hrest)

/-- Texts in parentheses are the arguments of a call. -/
theorem arguments_texts (shallow : n + 1 < nestingLimit) (ends : t.Ends) (name : String)
    (args : List String) {fuel : Nat} (enough : args.length + 4 ≤ fuel) :
    arguments fuel (.oneLine (.word "(" :: ((textPieces name args).map Piece.token ++
        .word ")" :: t :: ts)) locals variadic n) =
      .ok ((name :: args).map fun text => .string (bytes text),
        .oneLine (t :: ts) locals variadic n) := by
  obtain ⟨fuel, rfl⟩ := Nat.exists_eq_add_of_le' enough
  show arguments (fuel + (args.length + 3) + 1) _ = _
  rw [arguments]
  show (do
    let args ← expressions (fuel + (args.length + 3))
    closing ")" "(" 1
    return args : Parse (List Expr)) (.oneLine _ locals variadic n) = _
  refine (bind_ok (expressions_texts shallow args name _ (Nat.le_add_left ..))).trans ?_
  cases ends <;> rfl

theorem suffixes_field (e : Expr) (key : String) (fuel : Nat) :
    suffixes (fuel + 1) e
        (.oneLine (.word "." :: .name key :: .word "(" :: ts) locals variadic n) =
      suffixes fuel (.index e (.string (bytes key)) 1)
        (.oneLine (.word "(" :: ts) locals variadic n) := by
  rw [suffixes]
  rfl

theorem suffixes_call {args : List Expr} {fuel : Nat} (e : Expr)
    (h : arguments fuel (.oneLine (.word "(" :: ts) locals variadic n) =
      .ok (args, .oneLine rest locals variadic n)) :
    suffixes (fuel + 1) e (.oneLine (.word "(" :: ts) locals variadic n) =
      suffixes fuel (.call e args 1) (.oneLine rest locals variadic n) := by
  rw [suffixes]
  show (do
    let args ← arguments fuel
    suffixes fuel (.call e args 1) : Parse Expr)
      (.oneLine (.word "(" :: ts) locals variadic n) = _
  exact bind_ok h

/-- The call of the store. -/
theorem suffixed_storeCall (shallow : n + 1 < nestingLimit) (ends : t.Ends) (name : String)
    (args : List String) {fuel : Nat} (enough : args.length + 7 ≤ fuel) :
    suffixed fuel (.oneLine ((storeCallPieces name args).map Piece.token ++ t :: ts) [] variadic
        n) =
      .ok (storeCall name args 1, .oneLine (t :: ts) [] variadic n) := by
  obtain ⟨fuel, rfl⟩ := Nat.exists_eq_add_of_le' enough
  let given := (textPieces name args).map Piece.token ++ .word ")" :: t :: ts
  have htokens : (storeCallPieces name args).map Piece.token ++ t :: ts =
      .name "redis" :: .word "." :: .name "call" :: .word "(" :: given := by
    simp [storeCallPieces, given, Token.name, Token.word]
  have hargs : arguments (fuel + (args.length + 4)) (.oneLine (.word "(" :: given) [] variadic n) =
      .ok ((name :: args).map fun text => .string (bytes text), .oneLine (t :: ts) [] variadic n) :=
    arguments_texts shallow ends name args (Nat.le_add_left ..)
  let store : Expr := .global (bytes "redis") 1
  show suffixed (fuel + (args.length + 4) + 1 + 1 + 1) _ = _
  rw [htokens, suffixed]
  show suffixes (fuel + (args.length + 4) + 1 + 1) store
    (.oneLine (.word "." :: .name "call" :: .word "(" :: given) [] variadic n) = _
  rw [suffixes_field, suffixes_call _ hargs]
  exact suffixes_of_ends ends _ _

/-- A function is read without the variables and jumps around it. -/
theorem inFunction_ok {α : Type} {p : Parse α} {a : α} {locals' : List LocalName}
    (h : p (.oneLine ts [] false n) = .ok (a, .oneLine rest locals' false n)) :
    inFunction false p (.oneLine ts [] variadic n) = .ok (a, .oneLine rest [] variadic n) := by
  let outer : Reading := .oneLine ts [] variadic n
  show (do
    let result ← p
    checkJumps
    modify fun r => { r with
      locals := outer.locals
      outerLocals := outer.outerLocals
      variadic := outer.variadic
      loops := outer.loops
      labels := outer.labels
      jumps := outer.jumps
      firstJump := outer.firstJump }
    return result : Parse α) (.oneLine ts [] false n) = _
  exact bind_ok h

/-- A function without parameters. -/
theorem functionBody_ok {body : Block} {locals' : List LocalName} {fuel : Nat} (begins : t.Begins)
    (h : statements fuel (.oneLine (t :: ts) [] false n) =
      .ok (body, .oneLine (.word "end" :: .word ")" :: rest) locals' false n)) :
    functionBody (fuel + 1) 1 []
        (.oneLine (.word "(" :: .word ")" :: t :: ts) [] variadic n) =
      .ok (.mk 0 false body, .oneLine (.word ")" :: rest) [] variadic n) := by
  rw [functionBody]
  have hbody : (do
      let body ← statements fuel
      closing "end" "function" 1
      return .mk 0 false body : Parse Function) (.oneLine (t :: ts) [] false n) =
        .ok (.mk 0 false body, .oneLine (.word ")" :: rest) locals' false n) := bind_ok h
  cases begins <;> exact inFunction_ok hbody

/-- A function is an expression. -/
theorem expression_function {body : Block} {locals' : List LocalName} {fuel : Nat}
    (shallow : n + 1 < nestingLimit) (begins : t.Begins)
    (h : statements fuel (.oneLine (t :: ts) [] false (n + 1)) =
      .ok (body, .oneLine (.word "end" :: .word ")" :: rest) locals' false (n + 1))) :
    expression (fuel + 3) 0
        (.oneLine (.word "function" :: .word "(" :: .word ")" :: t :: ts) [] variadic n) =
      .ok (.function (.mk 0 false body), .oneLine (.word ")" :: rest) [] variadic n) := by
  refine expression_of_simple shallow rfl .close ?_
  rw [simple]
  show (do
    let f ← functionBody (fuel + 1) 1 []
    return .function f : Parse Expr)
      (.oneLine (.word "(" :: .word ")" :: t :: ts) [] variadic (n + 1)) = _
  exact bind_ok (functionBody_ok begins h)

/-- No arguments are arguments of a call. -/
theorem arguments_none (ends : t.Ends) (fuel : Nat) :
    arguments (fuel + 1) (.oneLine (.word "(" :: .word ")" :: t :: ts) locals variadic n) =
      .ok ([], .oneLine (t :: ts) locals variadic n) := by
  rw [arguments]
  cases ends <;> rfl

/-- The call of a function on the spot. -/
theorem suffixed_callOf (shallow : n + 1 < nestingLimit) (begins : t.Begins) {t' : Token}
    (ends : t'.Ends) {body : Block} {locals' : List LocalName} {fuel : Nat}
    (h : statements fuel (.oneLine (t :: ts) [] false (n + 1)) =
      .ok (body, .oneLine (.word "end" :: .word ")" :: .word "(" :: .word ")" :: t' :: rest) locals'
        false (n + 1))) :
    suffixed (fuel + 4) (.oneLine
        (.word "(" :: .word "function" :: .word "(" :: .word ")" :: t :: ts) [] variadic n) =
      .ok (callOf body 1, .oneLine (t' :: rest) [] variadic n) := by
  let f : Expr := .function (.mk 0 false body)
  rw [suffixed]
  show (do
    let e ← expression (fuel + 3) 0
    closing ")" "(" 1
    suffixes (fuel + 3) (.single e) : Parse Expr)
      (.oneLine (.word "function" :: .word "(" :: .word ")" :: t :: ts) [] variadic n) = _
  refine (bind_ok (expression_function shallow begins h)).trans ?_
  show suffixes (fuel + 3) (.single f)
    (.oneLine (.word "(" :: .word ")" :: t' :: rest) [] variadic n) = _
  rw [suffixes_call _ (arguments_none ends _)]
  exact suffixes_of_ends ends _ _

end Expressions

/-! ## Blocks -/

section Blocks

variable {t t' : Token} {ts rest : List Token} {locals : List LocalName} {variadic : Bool}
  {n fuel : Nat} {e : Expr}

/-- `return e` ends a block. -/
theorem statements_answer (shallow : n + 1 < nestingLimit) (opens : t.Opens)
    (ends : t'.EndsBlock)
    (h : expression fuel 0 (.oneLine (t :: ts) locals variadic (n + 1)) =
      .ok (e, .oneLine (t' :: rest) locals variadic (n + 1))) :
    statements (fuel + 3) (.oneLine (.word "return" :: t :: ts) locals variadic n) =
      .ok ([.answer [e]], .oneLine (t' :: rest) locals variadic n) := by
  have hvalues := expressions_one ends.ends ends.ne_comma h
  have hread : (do
      let values ← expressions (fuel + 1)
      let _ ← accept ";"
      return .answer values : Parse Stat) (.oneLine (t :: ts) locals variadic (n + 1)) =
        .ok (.answer [e], .oneLine (t' :: rest) locals variadic (n + 1)) := by
    refine (bind_ok hvalues).trans ?_
    cases ends <;> rfl
  have hanswer : answerStatement (fuel + 2) (.oneLine (.word "return" :: t :: ts) locals variadic
      n) = .ok (.answer [e], .oneLine (t' :: rest) locals variadic n) := by
    rw [answerStatement]
    refine nested_ok shallow ?_
    cases opens <;> exact hread
  rw [statements]
  show (do
    let s ← answerStatement (fuel + 2)
    return [s] : Parse Block) (.oneLine (.word "return" :: t :: ts) locals variadic n) = _
  exact bind_ok hanswer

/-- `local r = e`. -/
theorem statement_local (shallow : n + 1 < nestingLimit) (opens : t.Opens)
    (h : expression (fuel + 1) 0 (.oneLine (t :: ts) locals variadic (n + 1)) =
      .ok (e, .oneLine (.word "return" :: rest) locals variadic (n + 1))) :
    statement (fuel + 4)
        (.oneLine (.word "local" :: .name "r" :: .word "=" :: t :: ts) locals variadic n) =
      .ok ([.declare 1 [e]],
        .oneLine (.word "return" :: rest) (⟨bytes "r", false⟩ :: locals) variadic n) := by
  have hvalues := expressions_one .answer (Token.word_ne (by decide)) h
  have hnames : attributedNames (fuel + 2)
      (.oneLine (.name "r" :: .word "=" :: t :: ts) locals variadic (n + 1)) =
        .ok ([⟨bytes "r", false⟩], .oneLine (.word "=" :: t :: ts) locals variadic (n + 1)) := by
    rw [attributedNames]
    rfl
  have hsign : accept "=" (.oneLine (.word "=" :: t :: ts) locals variadic (n + 1)) =
      .ok (true, .oneLine (t :: ts) locals variadic (n + 1)) := by
    cases opens <;> rfl
  have hlocal : localStatement (fuel + 3)
      (.oneLine (.name "r" :: .word "=" :: t :: ts) locals variadic (n + 1)) =
        .ok (.declare 1 [e],
          .oneLine (.word "return" :: rest) (⟨bytes "r", false⟩ :: locals) variadic (n + 1)) := by
    rw [localStatement]
    exact (bind_ok hnames).trans ((bind_ok hsign).trans (bind_ok hvalues))
  rw [statement]
  refine nested_ok shallow ?_
  show (do
    let s ← localStatement (fuel + 3)
    return [s] : Parse Block)
      (.oneLine (.name "r" :: .word "=" :: t :: ts) locals variadic (n + 1)) = _
  exact bind_ok hlocal

/-- The variable declared last. -/
theorem suffixed_slot (ends : t.Ends) (fuel : Nat) :
    suffixed (fuel + 2)
        (.oneLine (.name "r" :: t :: ts) (⟨bytes "r", false⟩ :: locals) variadic n) =
      .ok (.slot 0, .oneLine (t :: ts) (⟨bytes "r", false⟩ :: locals) variadic n) := by
  have hrest : suffixes (fuel + 1) (.slot 0)
      (.oneLine (t :: ts) (⟨bytes "r", false⟩ :: locals) variadic n) =
        .ok (.slot 0, .oneLine (t :: ts) (⟨bytes "r", false⟩ :: locals) variadic n) :=
    suffixes_of_ends ends _ _
  rw [suffixed]
  cases ends <;> exact hrest

/-- `local r = e return r` ends a block. -/
theorem statements_kept (shallow : n + 2 < nestingLimit) (opens : t.Opens) (ends : t'.EndsBlock)
    (h : expression (fuel + 4) 0 (.oneLine (t :: ts) locals variadic (n + 1)) =
      .ok (e, .oneLine (.word "return" :: .name "r" :: t' :: rest) locals variadic (n + 1))) :
    statements (fuel + 8)
        (.oneLine (.word "local" :: .name "r" :: .word "=" :: t :: ts) locals variadic n) =
      .ok ([.declare 1 [e], .answer [.slot 0]],
        .oneLine (t' :: rest) (⟨bytes "r", false⟩ :: locals) variadic n) := by
  have hanswer : statements (fuel + 7)
      (.oneLine (.word "return" :: .name "r" :: t' :: rest) (⟨bytes "r", false⟩ :: locals) variadic
        n) = .ok ([.answer [.slot 0]],
          .oneLine (t' :: rest) (⟨bytes "r", false⟩ :: locals) variadic n) :=
    statements_answer (Nat.lt_of_succ_lt shallow) (.name "r") ends
      (expression_of_suffixed shallow (.name "r") ends.ends (suffixed_slot ends.ends fuel))
  rw [statements]
  show (do
    let first ← statement (fuel + 7)
    let rest ← statements (fuel + 7)
    return first ++ rest : Parse Block)
      (.oneLine (.word "local" :: .name "r" :: .word "=" :: t :: ts) locals variadic n) = _
  refine (bind_ok (statement_local (Nat.lt_of_succ_lt shallow) opens h)).trans ?_
  exact bind_ok hanswer

/-- The pieces of such a script begin a block. -/
theorem exists_relayPieces_eq (wrappings : List Wrapping) (name : String) (args : List String) :
    ∃ first more, (relayPieces wrappings name args).map Piece.token = first :: more ∧
      first.Begins := by
  cases wrappings with
  | nil => exact ⟨_, _, rfl, .answer⟩
  | cons wrapping wrappings =>
    cases wrapping with
    | tail line => exact ⟨_, _, rfl, .answer⟩
    | kept line => exact ⟨_, _, rfl, .declare⟩

/-- The tokens of a call of a function on the spot, with what follows. -/
theorem map_callOfPieces {pieces : List Piece} {first : Token} {more : List Token}
    (h : pieces.map Piece.token = first :: more) :
    (callOfPieces pieces).map Piece.token ++ ts =
      .word "(" :: .word "function" :: .word "(" :: .word ")" :: first :: (more ++
        .word "end" :: .word ")" :: .word "(" :: .word ")" :: ts) := by
  simp [callOfPieces, h, Token.word]

/-- **The pieces of such a script are read as its block**, if there is room for the functions in each
other. -/
theorem statements_relayPieces (name : String) (args : List String) (wrappings : List Wrapping)
    (oneLine : ∀ w ∈ wrappings, w.line = 1) :
    ∀ (t : Token) (rest : List Token) (variadic : Bool) (n fuel : Nat), t.EndsBlock →
      n + 3 * wrappings.length + 3 < nestingLimit →
      11 * wrappings.length + args.length + 12 ≤ fuel →
      ∃ locals, statements fuel (.oneLine ((relayPieces wrappings name args).map Piece.token ++
          t :: rest) [] variadic n) =
        .ok ((relay wrappings name args 1).body, .oneLine (t :: rest) locals variadic n) := by
  induction wrappings with
  | nil =>
    intro t rest variadic n fuel ends shallow enough
    obtain ⟨fuel, rfl⟩ : ∃ f, fuel = f + 5 := Nat.exists_eq_add_of_le' (by omega)
    have hroom : args.length + 7 ≤ fuel := by
      simp only [List.length_nil] at enough
      omega
    refine ⟨[], statements_answer (by omega) (.name "redis") ends ?_⟩
    refine expression_of_suffixed (by omega) (.name "redis") ends.ends ?_
    exact suffixed_storeCall (by omega) ends.ends name args hroom
  | cons wrapping wrappings ih =>
    intro t rest variadic n fuel ends shallow enough
    rw [List.length_cons] at shallow enough
    obtain ⟨first, more, hpieces, hbegins⟩ := exists_relayPieces_eq wrappings name args
    have hinner := ih fun w hw => oneLine w (List.mem_cons_of_mem _ hw)
    have hline := oneLine wrapping (List.mem_cons_self ..)
    rw [hpieces] at hinner
    cases wrapping with
    | tail line =>
      obtain rfl : line = 1 := hline
      obtain ⟨fuel, rfl⟩ : ∃ f, fuel = f + 9 := Nat.exists_eq_add_of_le' (by omega)
      obtain ⟨locals, hbody⟩ := hinner (.word "end") (.word ")" :: .word "(" :: .word ")" ::
        t :: rest) false (n + 3) fuel .done (by omega) (by omega)
      have htokens : (relayPieces (.tail 1 :: wrappings) name args).map Piece.token ++ t :: rest =
          .word "return" :: ((callOfPieces (relayPieces wrappings name args)).map Piece.token ++
            t :: rest) := rfl
      refine ⟨[], ?_⟩
      rw [htokens, map_callOfPieces hpieces]
      refine statements_answer (by omega) .paren ends ?_
      refine expression_of_suffixed (by omega) .paren ends.ends ?_
      exact suffixed_callOf (by omega) hbegins ends.ends hbody
    | kept line =>
      obtain rfl : line = 1 := hline
      obtain ⟨fuel, rfl⟩ : ∃ f, fuel = f + 10 := Nat.exists_eq_add_of_le' (by omega)
      obtain ⟨locals, hbody⟩ := hinner (.word "end") (.word ")" :: .word "(" :: .word ")" ::
        .word "return" :: .name "r" :: t :: rest) false (n + 3) fuel .done (by omega) (by omega)
      refine ⟨[⟨bytes "r", false⟩], ?_⟩
      have htokens : (relayPieces (.kept 1 :: wrappings) name args).map Piece.token ++ t :: rest =
          .word "local" :: .name "r" :: .word "=" ::
            ((callOfPieces (relayPieces wrappings name args)).map Piece.token ++
              .word "return" :: .name "r" :: t :: rest) := by
        simp [relayPieces, Wrapping.pieces, Token.word, Token.name]
      rw [htokens, map_callOfPieces hpieces]
      refine statements_kept (by omega) .paren ends ?_
      refine expression_of_suffixed (by omega) .paren .answer ?_
      exact suffixed_callOf (by omega) hbegins .answer hbody

end Blocks

/-! ## Sources -/

theorem reads_words : ∀ s ∈ ["return", "local", "function", "end", "(", ")", ".", ",", "="],
    (Piece.fixed s).Reads := by
  simp only [List.forall_mem_cons]
  refine ⟨?_, ?_, ?_, ?_, ?_, ?_, ?_, ?_, ?_, List.forall_mem_nil _⟩
  all_goals exact ⟨by simp [Piece.written], fun _ _ => rfl, fun _ => rfl⟩

theorem reads_names : ∀ s ∈ ["redis", "call", "r"], (Piece.name s).Reads := by
  simp only [List.forall_mem_cons]
  refine ⟨?_, ?_, ?_, List.forall_mem_nil _⟩
  all_goals exact ⟨by simp [Piece.written], fun _ _ => rfl, fun _ => rfl⟩

theorem reads_textPieces (text : String) (texts : List String) :
    ∀ p ∈ textPieces text texts, p.Reads := by
  intro p hp
  simp only [textPieces, List.mem_cons, List.mem_flatMap, List.not_mem_nil, or_false] at hp
  rcases hp with rfl | ⟨text, -, rfl | rfl⟩
  · exact Piece.reads_text _
  · exact reads_words _ (by simp)
  · exact Piece.reads_text _

theorem reads_callOfPieces {body : List Piece} (h : ∀ p ∈ body, p.Reads) :
    ∀ p ∈ callOfPieces body, p.Reads := by
  intro p hp
  simp only [callOfPieces, List.mem_append, List.mem_cons, List.not_mem_nil, or_false] at hp
  rcases hp with ((rfl | rfl | rfl | rfl) | hp) | (rfl | rfl | rfl | rfl)
  case inl.inr => exact h p hp
  all_goals exact reads_words _ (by simp)

/-- The lexer makes one token of each piece of such a script. -/
theorem reads_relayPieces (wrappings : List Wrapping) (name : String) (args : List String) :
    ∀ p ∈ relayPieces wrappings name args, p.Reads := by
  induction wrappings with
  | nil =>
    intro p hp
    simp only [relayPieces, List.foldr_nil, storeCallPieces, List.mem_cons, List.mem_append,
      List.not_mem_nil, or_false] at hp
    rcases hp with rfl | ((rfl | rfl | rfl | rfl) | hp) | rfl
    · exact reads_words _ (by simp)
    · exact reads_names _ (by simp)
    · exact reads_words _ (by simp)
    · exact reads_names _ (by simp)
    · exact reads_words _ (by simp)
    · exact reads_textPieces _ _ p hp
    · exact reads_words _ (by simp)
  | cons wrapping wrappings ih =>
    intro p hp
    have hcall := reads_callOfPieces ih p
    cases wrapping with
    | tail line =>
      rcases List.mem_cons.mp hp with rfl | hp
      · exact reads_words _ (by simp)
      · exact hcall hp
    | kept line =>
      simp only [relayPieces, List.foldr_cons, Wrapping.pieces, List.mem_append, List.mem_cons,
        List.not_mem_nil, or_false] at hp
      rcases hp with ((rfl | rfl | rfl) | hp) | (rfl | rfl)
      · exact reads_words _ (by simp)
      · exact reads_names _ (by simp)
      · exact reads_words _ (by simp)
      · exact hcall hp
      · exact reads_words _ (by simp)
      · exact reads_names _ (by simp)

/-- Each function and each argument takes a piece at least. -/
theorem length_relayPieces (wrappings : List Wrapping) (name : String) (args : List String) :
    wrappings.length + args.length ≤ (relayPieces wrappings name args).length := by
  induction wrappings with
  | nil =>
    have htexts : args.length ≤ (textPieces name args).length := by
      simp [textPieces, List.length_flatMap]
      omega
    simp only [relayPieces, List.foldr_nil, storeCallPieces, List.length_nil, List.length_cons,
      List.length_append]
    omega
  | cons wrapping wrappings ih =>
    have hcall : (relayPieces wrappings name args).length + 1 ≤
        (relayPieces (wrapping :: wrappings) name args).length := by
      cases wrapping <;>
      · simp only [relayPieces, List.foldr_cons, Wrapping.pieces, callOfPieces, List.length_cons,
          List.length_append]
        omega
    rw [List.length_cons]
    omega

/-- **The source compiles to the program.** The functions may be as deep in each other as the
compiler allows. -/
theorem ofSource_relaySource {wrappings : List Wrapping} {name : String} {args : List String}
    (oneLine : ∀ w ∈ wrappings, w.line = 1) (shallow : 3 * wrappings.length + 3 < nestingLimit) :
    Chunk.ofSource (relaySource wrappings name args) = .ok (relay wrappings name args 1) := by
  have hlength := length_relayPieces wrappings name args
  let tokens := (relayPieces wrappings name args).map Piece.token ++ [Token.last]
  let fuel := fuelPerToken * (tokens.length + 1)
  have hfuel : 11 * wrappings.length + args.length + 12 ≤ fuel := by
    simp only [fuel, tokens, fuelPerToken, List.length_append, List.length_map, List.length_cons,
      List.length_nil]
    omega
  obtain ⟨locals, hbody⟩ := statements_relayPieces name args wrappings oneLine .last [] true 0
    fuel .last (by omega) hfuel
  have htokens := Token.ofSource_sourceOf (reads_relayPieces wrappings name args)
  have hchunk : chunk fuel (.oneLine tokens [] true 0) =
      .ok (relay wrappings name args 1, .oneLine [.last] locals true 0) := by
    obtain ⟨first, more, hpieces, hbegins⟩ := exists_relayPieces_eq wrappings name args
    have hstart : tokens = first :: (more ++ [.last]) := by simp [tokens, hpieces]
    have hcurrent : current (.oneLine tokens [] true 0) =
        .ok (first, .oneLine tokens [] true 0) := by
      rw [hstart]
      rfl
    have hcheck : check first (.oneLine tokens [] true 0) = .ok ((), .oneLine tokens [] true 0) := by
      cases hbegins <;> rfl
    exact (bind_ok hcurrent).trans ((bind_ok hcheck).trans (bind_ok hbody))
  rw [Chunk.ofSource, relaySource, htokens]
  show (chunk fuel (.oneLine tokens [] true 0)).map Prod.fst = _
  rw [hchunk]
  rfl

end ScriptStore.Script
