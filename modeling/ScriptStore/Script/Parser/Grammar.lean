import ScriptStore.Script.Parser.Basic

/-!
# Reading programs: the grammar

`Chunk.ofSource` reads a script. Expressions are read by the strength with which operators bind; a
construct that is opened by a word remembers its line for the message that misses its end.

Each function below spends one unit of fuel. Between two tokens the grammar goes down a bounded
number of rules, so a fixed amount for each token suffices.

The attribute `close` is refused, as are attributes that do not exist.
-/

namespace ScriptStore.Script

open Parse

inductive Infix where
  | binary (op : BinaryOp)
  | both
  | either

/-- An infix operator with how strongly it binds to the left and to the right. One that binds less
to the right groups to the right. -/
structure InfixRule where
  op : Infix
  left : Nat
  right : Nat

def infixRule? : String → Option InfixRule
  | "or" => some ⟨.either, 1, 1⟩
  | "and" => some ⟨.both, 2, 2⟩
  | "<" => some ⟨.binary (.compare .lt), 3, 3⟩
  | ">" => some ⟨.binary (.compare .gt), 3, 3⟩
  | "<=" => some ⟨.binary (.compare .le), 3, 3⟩
  | ">=" => some ⟨.binary (.compare .ge), 3, 3⟩
  | "~=" => some ⟨.binary (.compare .ne), 3, 3⟩
  | "==" => some ⟨.binary (.compare .eq), 3, 3⟩
  | "|" => some ⟨.binary (.bit .or), 4, 4⟩
  | "~" => some ⟨.binary (.bit .xor), 5, 5⟩
  | "&" => some ⟨.binary (.bit .and), 6, 6⟩
  | "<<" => some ⟨.binary (.bit .shiftLeft), 7, 7⟩
  | ">>" => some ⟨.binary (.bit .shiftRight), 7, 7⟩
  | ".." => some ⟨.binary .concat, 9, 8⟩
  | "+" => some ⟨.binary (.arith .add), 10, 10⟩
  | "-" => some ⟨.binary (.arith .sub), 10, 10⟩
  | "*" => some ⟨.binary (.arith .mul), 11, 11⟩
  | "/" => some ⟨.binary (.arith .div), 11, 11⟩
  | "//" => some ⟨.binary (.arith .idiv), 11, 11⟩
  | "%" => some ⟨.binary (.arith .mod), 11, 11⟩
  | "^" => some ⟨.binary (.arith .pow), 14, 13⟩
  | _ => none

/-- How strongly an operator before its operand binds. -/
def unaryStrength : Nat := 12

/-- The operators before an operand. -/
def unaryOp? : String → Option UnaryOp
  | "not" => some .invert
  | "-" => some .negate
  | "#" => some .length
  | "~" => some .complement
  | _ => none

/-- The text of a token that is a reserved word or operator. -/
def Token.fixed? (t : Token) : Option String :=
  match t.kind with
  | .fixed s => some s
  | _ => none

/-- The line that a failing operator reports: a comparison reports where its right operand ends, a
chain of concatenations its last operator. -/
def Infix.combine (op : Infix) (left right : Expr) (opLine endLine : Nat) : Expr :=
  match op, right with
  | .both, _ => .both left right
  | .either, _ => .either left right
  | .binary (.compare op), _ => .binary (.compare op) left right endLine
  | .binary .concat, .binary .concat _ _ line => .binary .concat left right line
  | .binary op, _ => .binary op left right opLine

/-- Whether the current token ends a block. -/
def atBlockEnd : Parse Bool := do
  match (← current).kind with
  | .finish => return true
  | .fixed s => return ["else", "elseif", "end", "until"].contains s
  | _ => return false

/-- Whether nothing that can run follows in this block. -/
def atLastStatement : Parse Bool := do
  return (← atBlockEnd) && !(← atFixed "until")

/-- An attribute, if one comes here: whether the variable is constant. -/
def constantMark : Parse Bool := do
  if ← accept "<" then
    let mark ← name
    expect ">"
    if mark = bytes "const" then return true
    -- `close` among them: no variable is closed here
    else failHere (bytes "unknown attribute " ++ quoted mark)
  else return false

/-- Gives up. The fuel of a whole source suffices for it. -/
def exhausted {α : Type} : Parse α := failNear "source nested too deeply"

def currentLine : Parse Nat := do return (← current).line

def lastLine : Parse Nat := do return (← get).line

mutual

/-- An expression of operators that bind more strongly than `limit` to the left. -/
def expression (fuel : Nat) (limit : Nat) : Parse Expr :=
  match fuel with
  | 0 => exhausted
  | fuel + 1 => nested do
    let token ← current
    match token.fixed?.bind unaryOp? with
    | some op =>
      advance
      let operand ← expression fuel unaryStrength
      infixes fuel limit (.unary op operand token.line)
    | none =>
      let left ← simple fuel
      infixes fuel limit left

/-- The operators behind a left operand, with their right ones. -/
def infixes (fuel : Nat) (limit : Nat) (left : Expr) : Parse Expr :=
  match fuel with
  | 0 => exhausted
  | fuel + 1 => do
    let token ← current
    match token.fixed?.bind infixRule? with
    | some rule =>
      if limit < rule.left then
        advance
        let right ← expression fuel rule.right
        infixes fuel limit (rule.op.combine left right token.line (← lastLine))
      else return left
    | none => return left

/-- An expression without operators around it. -/
def simple (fuel : Nat) : Parse Expr :=
  match fuel with
  | 0 => exhausted
  | fuel + 1 => do
    let token ← current
    match token.kind with
    | .number n =>
      advance
      return .number n
    | .string s =>
      advance
      return .string s
    | .fixed "nil" =>
      advance
      return .nil
    | .fixed "true" =>
      advance
      return .bool true
    | .fixed "false" =>
      advance
      return .bool false
    | .fixed "..." =>
      unless (← get).variadic do failNear "cannot use '...' outside a vararg function"
      advance
      return .varargs
    | .fixed "\x7b" => tableConstructor fuel
    | .fixed "function" =>
      advance
      let f ← functionBody fuel token.line []
      return .function f
    | _ => suffixed fuel

/-- A variable or an expression in parentheses, with what is applied to it. -/
def suffixed (fuel : Nat) : Parse Expr :=
  match fuel with
  | 0 => exhausted
  | fuel + 1 => do
    let token ← current
    match token.kind with
    | .name s =>
      advance
      suffixes fuel (← resolve s)
    | .fixed "(" =>
      advance
      let e ← expression fuel 0
      closing ")" "(" token.line
      suffixes fuel (.single e)
    | _ => failNear "unexpected symbol"

/-- Indexing and calls behind an expression. -/
def suffixes (fuel : Nat) (e : Expr) : Parse Expr :=
  match fuel with
  | 0 => exhausted
  | fuel + 1 => do
    let token ← current
    match token.kind with
    | .fixed "." =>
      advance
      let key ← name
      suffixes fuel (.index e (.string key) (← lastLine))
    | .fixed "[" =>
      advance
      let key ← expression fuel 0
      expect "]"
      suffixes fuel (.index e key (← lastLine))
    | .fixed ":" =>
      advance
      let method ← name
      let nameLine ← lastLine
      let line ← currentLine
      let args ← arguments fuel
      suffixes fuel (.method e method args nameLine line)
    | .fixed "(" | .fixed "\x7b" | .string _ =>
      let args ← arguments fuel
      suffixes fuel (.call e args token.line)
    | _ => return e

/-- The arguments of a call: a list in parentheses, or one string or table. -/
def arguments (fuel : Nat) : Parse (List Expr) :=
  match fuel with
  | 0 => exhausted
  | fuel + 1 => do
    let token ← current
    match token.kind with
    | .string s =>
      advance
      return [.string s]
    | .fixed "\x7b" =>
      let t ← tableConstructor fuel
      return [t]
    | .fixed "(" =>
      advance
      if ← accept ")" then return []
      let args ← expressions fuel
      closing ")" "(" token.line
      return args
    | _ => failNear "function arguments expected"

/-- Expressions with commas between. -/
def expressions (fuel : Nat) : Parse (List Expr) :=
  match fuel with
  | 0 => exhausted
  | fuel + 1 => do
    let e ← expression fuel 0
    if ← accept "," then
      let rest ← expressions fuel
      return e :: rest
    else return [e]

def tableConstructor (fuel : Nat) : Parse Expr :=
  match fuel with
  | 0 => exhausted
  | fuel + 1 => do
    let line ← currentLine
    expect "\x7b"
    let fields ← tableFields fuel
    closing "\x7d" "\x7b" line
    return .table fields

def tableFields (fuel : Nat) : Parse (List Field) :=
  match fuel with
  | 0 => exhausted
  | fuel + 1 => do
    if ← atFixed "\x7d" then return []
    let field ← tableField fuel
    if (← accept ",") || (← accept ";") then
      let rest ← tableFields fuel
      return field :: rest
    else return [field]

def tableField (fuel : Nat) : Parse Field :=
  match fuel with
  | 0 => exhausted
  | fuel + 1 => do
    match (← current).kind with
    | .name s =>
      if ← nextIsFixed "=" then
        advance
        advance
        let value ← expression fuel 0
        return .entry (.string s) value (← lastLine)
      else
        let value ← expression fuel 0
        return .item value
    | .fixed "[" =>
      advance
      let key ← expression fuel 0
      expect "]"
      expect "="
      let value ← expression fuel 0
      return .entry key value (← lastLine)
    | _ =>
      let value ← expression fuel 0
      return .item value

/-- The parameters and the block of a function that began on a line, behind the parameters that it
has anyway. -/
def functionBody (fuel : Nat) (line : Nat) (first : List Bytes) : Parse Function :=
  match fuel with
  | 0 => exhausted
  | fuel + 1 => inFunction false do
    expect "("
    let (names, variadic) ←
      if ← atFixed ")" then pure ([], false) else parameters fuel
    expect ")"
    let params := first ++ names
    declareNames params
    modify fun r => { r with variadic }
    let body ← statements fuel
    closing "end" "function" line
    return .mk params.length variadic body

/-- Parameters with commas between, and whether more arguments are taken. -/
def parameters (fuel : Nat) : Parse (List Bytes × Bool) :=
  match fuel with
  | 0 => exhausted
  | fuel + 1 => do
    match (← current).kind with
    | .name s =>
      advance
      if ← accept "," then
        let (rest, variadic) ← parameters fuel
        return (s :: rest, variadic)
      else return ([s], false)
    | .fixed "..." =>
      advance
      return ([], true)
    | _ => failNear "<name> or '...' expected"

/-- The statements up to the end of a block. -/
def statements (fuel : Nat) : Parse Block :=
  match fuel with
  | 0 => exhausted
  | fuel + 1 => do
    if ← atBlockEnd then return []
    if ← atFixed "return" then
      let s ← answerStatement fuel
      return [s]
    let first ← statement fuel
    let rest ← statements fuel
    return first ++ rest

/-- A block with a scope of its own. -/
def block (fuel : Nat) : Parse Block :=
  match fuel with
  | 0 => exhausted
  | fuel + 1 => inBlock (statements fuel)

/-- A `return` with its values. -/
def answerStatement (fuel : Nat) : Parse Stat :=
  match fuel with
  | 0 => exhausted
  | fuel + 1 => nested do
    advance
    let values ←
      if (← atBlockEnd) || (← atFixed ";") then pure [] else expressions fuel
    let _ ← accept ";"
    return .answer values

/-- One statement; an empty one leaves nothing behind. -/
def statement (fuel : Nat) : Parse (List Stat) :=
  match fuel with
  | 0 => exhausted
  | fuel + 1 => nested do
    let token ← current
    let line := token.line
    match token.fixed? with
    | some ";" =>
      advance
      return []
    | some "if" =>
      let s ← choice fuel line
      return [s]
    | some "while" =>
      advance
      let condition ← expression fuel 0
      expect "do"
      let body ← inLoop (block fuel)
      closing "end" "while" line
      return [.whileLoop condition body]
    | some "do" =>
      advance
      let body ← block fuel
      closing "end" "do" line
      return [.block body]
    | some "for" =>
      advance
      let s ← forLoop fuel line
      return [s]
    | some "repeat" =>
      advance
      let body ← inLoop <| inBlock do
        let body ← statements fuel
        closing "until" "repeat" line
        let condition ← expression fuel 0
        return body ++ [.leaveIf condition]
      return [.repeatLoop body]
    | some "function" =>
      advance
      let s ← functionStatement fuel line
      return [s]
    | some "local" =>
      advance
      if ← accept "function" then
        let s ← name
        declareNames [s]
        let f ← functionBody fuel line []
        return [.localFunction f]
      else
        let s ← localStatement fuel
        return [s]
    | some "::" =>
      advance
      let label ← name
      expect "::"
      let rest ← emptyStatements fuel
      let depth ← if ← atLastStatement then outerDepth else depth
      defineLabel label line depth
      return .label label depth :: rest
    | some "break" =>
      advance
      if (← get).loops = 0 then addJump none line
      return [.leave]
    | some "goto" =>
      advance
      let label ← name
      jumpTo label line
      return [.jump label]
    | _ =>
      let s ← expressionStatement fuel
      return [s]

/-- Empty statements and labels. -/
def emptyStatements (fuel : Nat) : Parse (List Stat) :=
  match fuel with
  | 0 => exhausted
  | fuel + 1 => do
    if (← atFixed ";") || (← atFixed "::") then
      let first ← statement fuel
      let rest ← emptyStatements fuel
      return first ++ rest
    else return []

/-- An `if` or `elseif` with its branches; `line` is that of the `if`. -/
def choice (fuel : Nat) (line : Nat) : Parse Stat :=
  match fuel with
  | 0 => exhausted
  | fuel + 1 => do
    advance
    let condition ← expression fuel 0
    expect "then"
    let yes ← block fuel
    if ← atFixed "elseif" then
      let no ← choice fuel line
      return .choice condition yes [no]
    else
      let no ← if ← accept "else" then block fuel else pure []
      closing "end" "if" line
      return .choice condition yes no

/-- A `for` loop from behind its first word. -/
def forLoop (fuel : Nat) (line : Nat) : Parse Stat :=
  match fuel with
  | 0 => exhausted
  | fuel + 1 => do
    let first ← name
    if ← accept "=" then
      let start ← expression fuel 0
      expect ","
      let limit ← expression fuel 0
      let step ← if ← accept "," then some <$> expression fuel 0 else pure none
      let doLine ← currentLine
      expect "do"
      let body ← inLoop <| inBlock do
        declareNames [first]
        block fuel
      closing "end" "for" line
      return .numericLoop start limit step body doLine
    else if (← atFixed ",") || (← atFixed "in") then
      let more ← moreNames fuel
      expect "in"
      let values ← expressions fuel
      expect "do"
      let body ← inLoop <| inBlock do
        declareNames (first :: more)
        block fuel
      closing "end" "for" line
      return .genericLoop (more.length + 1) values body line
    else failNear "'=' or 'in' expected"

/-- Names, each behind a comma. -/
def moreNames (fuel : Nat) : Parse (List Bytes) :=
  match fuel with
  | 0 => exhausted
  | fuel + 1 => do
    if ← accept "," then
      let first ← name
      let rest ← moreNames fuel
      return first :: rest
    else return []

/-- A `function` statement from behind its first word. -/
def functionStatement (fuel : Nat) (line : Nat) : Parse Stat :=
  match fuel with
  | 0 => exhausted
  | fuel + 1 => do
    let base ← resolve (← name)
    let (place, isMethod) ← functionPath fuel base
    let f ← functionBody fuel line (if isMethod then [bytes "self"] else [])
    checkAssignable place
    return .assign [← target place] [.function f] line

/-- The fields behind a function's first name, and whether the last is a method. -/
def functionPath (fuel : Nat) (place : Expr) : Parse (Expr × Bool) :=
  match fuel with
  | 0 => exhausted
  | fuel + 1 => do
    if ← accept "." then
      let key ← name
      functionPath fuel (.index place (.string key) (← lastLine))
    else if ← accept ":" then
      let key ← name
      return (.index place (.string key) (← lastLine), true)
    else return (place, false)

/-- A `local` statement from behind its first word. -/
def localStatement (fuel : Nat) : Parse Stat :=
  match fuel with
  | 0 => exhausted
  | fuel + 1 => do
    let names ← attributedNames fuel
    let values ← if ← accept "=" then expressions fuel else pure []
    Parse.declare names
    return .declare names.length values

/-- Names with attributes and commas between. -/
def attributedNames (fuel : Nat) : Parse (List LocalName) :=
  match fuel with
  | 0 => exhausted
  | fuel + 1 => do
    let s ← name
    let constant ← constantMark
    if ← accept "," then
      let rest ← attributedNames fuel
      return ⟨s, constant⟩ :: rest
    else return [⟨s, constant⟩]

/-- An assignment or a call. -/
def expressionStatement (fuel : Nat) : Parse Stat :=
  match fuel with
  | 0 => exhausted
  | fuel + 1 => do
    let e ← suffixed fuel
    if (← atFixed "=") || (← atFixed ",") then
      let targets ← assignmentTargets fuel e
      let values ← expressions fuel
      return .assign targets values (← lastLine)
    else
      match e with
      | .call .. | .method .. => return .perform e
      | _ => failNear "syntax error"

/-- The left side of an assignment with its sign, from behind its first expression. -/
def assignmentTargets (fuel : Nat) (e : Expr) : Parse (List Target) :=
  match fuel with
  | 0 => exhausted
  | fuel + 1 => do
    let first ← target e
    checkAssignable e
    if ← accept "," then
      let next ← suffixed fuel
      let rest ← nested (assignmentTargets fuel next)
      return first :: rest
    else
      expect "="
      return [first]

end

/-- Fuel for each token. -/
def fuelPerToken : Nat := 16

def chunk (fuel : Nat) : Parse Chunk := do
  check (← current)
  let body ← statements fuel
  match (← current).kind with
  | .finish =>
    checkJumps
    return ⟨body⟩
  | _ => failNear "<eof> expected"

def Chunk.ofSource (source : String) : Except SourceFault Chunk :=
  let tokens := Token.ofSource (bytes source)
  (chunk (fuelPerToken * (tokens.length + 1))).run'
    ⟨tokens, 1, [], 0, true, 0, [], [], 0, 0⟩

end ScriptStore.Script
