import Tsumugi.Lang.Ast
import Tsumugi.Lib.Loop
import Tsumugi.Syntax.Token

/-!
# The parser (`parser.rs`)

A recursive descent parser over the tokens that are left. The depth of nesting and the
depth of function bodies are handed down as an argument, which gives them back on every
way out.

The functions that the guard on the depth calls form a `Level`; `level n` can go through
the guard `n` times before it is spent. Everything else is built on a level, and the loops
run on fuel of their own. Neither fuel ever runs out (`Syntax.ParserLaw`).
-/

namespace Tsumugi.Syntax

open Proc

/-! ## Errors -/

/-- Where a name is missing. -/
inductive NamePlace
  | letName | forVar | catchVar | fnName | param
deriving DecidableEq, Repr

/-- What is wrong with the tokens, its text apart. -/
inductive Problem
  | exprTooDeep
  | tooDeep
  | importPlacement
  | returnPlacement
  | nameMissing (place : NamePlace) (got : Token)
  | importPath
  | unfinished
  | expected (mark : Mark) (got : Token)
  | newlineMissing (got : Token)
  | newlineOrEofMissing (got : Token)
  | lexer (message : String)
  | unknownChar (c : Char)
  | unexpectedToken (got : Token)
  | inFString (line : Nat) (problem : Problem)
  | fStringRest

/-- A parse error. -/
structure ParseError where
  line : Nat
  problem : Problem

def NamePlace.message : NamePlace → String
  | letName => "let の後に識別子が必要です"
  | forVar => "for の後に変数名が必要です"
  | catchVar => "catch の後に変数名が必要です"
  | fnName => "fn の後に関数名が必要です"
  | param => "引数名が必要です"

/-- The text of an error. `debug` is `{:?}` of a token and `display` the text of an error
with its line. -/
def Problem.message (debug : Token → String) (display : Nat → String → String) : Problem → String
  | exprTooDeep => s!"式のネストが深すぎます (上限: {maxAstDepth})"
  | tooDeep => s!"ネストが深すぎます (上限: {maxAstDepth})"
  | importPlacement => "import はトップレベルでのみ使用できます"
  | returnPlacement => "return は関数の中でのみ使用できます"
  | nameMissing place got => s!"{place.message}。got: {debug got}"
  | importPath => "import の後に文字列パスが必要です"
  | unfinished => "入力が未完結です: end が必要です"
  | expected mark got => s!"期待: {debug (.mark mark)}, 実際: {debug got}"
  | newlineMissing got => s!"改行が必要です。got: {debug got}"
  | newlineOrEofMissing got => s!"改行またはEOFが必要です。got: {debug got}"
  | lexer message => message
  | unknownChar c => s!"想定外の文字: '{c}'"
  | unexpectedToken got => s!"予期しないトークン: {debug got}"
  | inFString line problem =>
    s!"f-string内の式のパースに失敗: {display line (problem.message debug display)}"
  | fStringRest => "f-string内の式に余分なトークンがあります"

/-! ## The state -/

/-- The tokens that are left and the errors so far. -/
structure State where
  rest : List Spanned
  errors : List ParseError

/-- Why a parse function does not return: an error, or no fuel. -/
inductive Stop
  | raised (e : ParseError)
  | spent

abbrev P := Proc State Stop

/-- `depth` and `fn_depth`. -/
structure Ctx where
  depth : Nat
  fnDepth : Nat

def fail {α : Type} (line : Nat) (problem : Problem) : P α := stop (.raised ⟨line, problem⟩)

/-- A loop that takes a token in each round. -/
def tokenLoop {β γ : Type} (step : β → P (β ⊕ γ)) (b : β) : P γ :=
  loop .spent (fun s => s.rest.length) step b

/-- The first token, `Eof` after the last one. -/
def headToken (rest : List Spanned) : Token := (rest.head?.map Spanned.token).getD (.mark .eof)

/-- `peek_token`. -/
def peekToken : P Token := gets fun s => headToken s.rest

/-- `peek_token`, where only the marks matter. -/
def peekMark : P (Option Mark) := gets fun s => (headToken s.rest).mark?

/-- `current_line`. -/
def currentLine : P Nat := gets fun s => (s.rest.head?.map Spanned.line).getD 0

/-- `advance_spanned`. -/
def advanceSpanned : P Spanned :=
  update fun s => (s.rest.head?.getD (.mk (.mark .eof) 0), { s with rest := s.rest.tail })

/-- `advance`. -/
def advance : P Unit := modify fun s => { s with rest := s.rest.tail }

/-- `is_at_end`. -/
def isAtEnd : P Bool := do return (← peekMark) = some .eof

/-- `self.errors.push`. -/
def pushError (e : ParseError) : P Unit := modify fun s => { s with errors := s.errors ++ [e] }

/-- `expect`. -/
def expect (mark : Mark) : P Unit := do
  let spanned ← advanceSpanned
  if spanned.token.mark? = some mark then pure ()
  else if spanned.token.mark? = some .eof ∧ (mark = .«end» ∨ mark = .«catch») then
    fail spanned.line .unfinished
  else fail spanned.line (.expected mark spanned.token)

/-- `expect_newline`. -/
def expectNewline : P Unit := do
  let line ← currentLine
  match ← peekToken with
  | .mark .newline => advance
  | .mark .eof => pure ()
  | other => fail line (.newlineMissing other)

/-- `expect_newline_or_eof`. -/
def expectNewlineOrEof : P Unit := do
  let line ← currentLine
  match ← peekToken with
  | .mark .newline => advance
  | .mark .eof => pure ()
  | other => fail line (.newlineOrEofMissing other)

/-- One round of `skip_newlines`. -/
def skipStep (_ : Unit) : P (Unit ⊕ Unit) := do
  if (← peekMark) = some .newline then do
    advance
    pure (.inl ())
  else pure (.inr ())

/-- `skip_newlines`. -/
def skipNewlines : P Unit := tokenLoop skipStep ()

/-- A name, or the error that it is missing. -/
def expectName (place : NamePlace) : P String := do
  let spanned ← advanceSpanned
  match spanned.token with
  | .ident name => pure name
  | other => fail spanned.line (.nameMissing place other)

/-! ## Limits -/

/-- `expr_depth_exceeds_limit`. -/
def exprDepthExceedsLimit (e : Expr) : Bool := (e.excessiveDepthLine 1 0).isSome

/-- `stmt_depth_exceeds_limit`. -/
def stmtDepthExceedsLimit (s : Stmt) : Bool := (s.excessiveDepthLine 1).isSome

/-- `check_expr_depth`. -/
def checkExprDepth (e : Expr) (line : Nat) : P Expr :=
  if exprDepthExceedsLimit e then fail line .exprTooDeep else pure e

/-- `check_stmt_depth`. -/
def checkStmtDepth (s : Stmt) : P Stmt :=
  if stmtDepthExceedsLimit s then fail s.line .tooDeep else pure s

/-- `with_parse_depth`. -/
def withParseDepth {α : Type} (ctx : Ctx) (expression : Bool) (parse : Ctx → P α) : P α :=
  if maxAstDepth ≤ ctx.depth then do
    let line ← currentLine
    fail line (if expression then .exprTooDeep else .tooDeep)
  else parse { ctx with depth := ctx.depth + 1 }

/-- `with_fn_context`. -/
def withFnContext {α : Type} (ctx : Ctx) (parse : Ctx → P α) : P α :=
  parse { ctx with fnDepth := ctx.fnDepth + 1 }

/-- The functions that `with_parse_depth` runs. -/
structure Level where
  parseOr : Ctx → P Expr
  parseUnary : Ctx → P Expr
  parseStmtInner : Bool → Ctx → P Stmt
  parseIf : Ctx → P Stmt

/-! ## Recovery -/

/-- The keywords at which a statement can begin. -/
def Mark.beginsStmt (m : Mark) : Bool :=
  m ∈ [.«let», .fn, .«if», .«while», .«for», .«return», .«import», .«try», .«break», .«continue»]

/-- One round of `synchronize`. -/
def syncStep (_ : Unit) : P (Unit ⊕ Unit) := do
  match ← peekMark with
  | some .eof => pure (.inr ())
  | some .newline => do
    advance
    pure (.inr ())
  | some m =>
    if m.beginsStmt then pure (.inr ())
    else do
      advance
      pure (.inl ())
  | none => do
    advance
    pure (.inl ())

/-- `synchronize`. -/
def synchronize : P Unit := tokenLoop syncStep ()

/-- One round of the loop of `discard_current_line`. -/
def discardStep (_ : Unit) : P (Unit ⊕ Unit) := do
  let mark ← peekMark
  if mark = some .newline ∨ mark = some .eof then pure (.inr ())
  else do
    advance
    pure (.inl ())

/-- `discard_current_line`. -/
def discardCurrentLine : P Unit := do
  tokenLoop discardStep ()
  if (← peekMark) = some .newline then advance else pure ()

/-- `reject_non_top_level_import`. -/
def rejectNonTopLevelImport : P ParseError := do
  let line ← currentLine
  discardCurrentLine
  pure ⟨line, .importPlacement⟩

/-- `reject_non_function_return`. -/
def rejectNonFunctionReturn : P ParseError := do
  let line ← currentLine
  discardCurrentLine
  pure ⟨line, .returnPlacement⟩

/-! ## Expressions -/

section

variable (sub : Level) (ctx : Ctx)

/-- `parse_expr`. -/
def parseExpr : P Expr := do
  let line ← currentLine
  let e ← withParseDepth ctx true sub.parseOr
  checkExprDepth e line

/-- `ident, ident, ...` of `parse_params`, after the first name. -/
def moreParams (params : List String) : P (List String ⊕ List String) := do
  if (← peekMark) = some .comma then do
    advance
    let name ← expectName .param
    pure (.inl (params ++ [name]))
  else pure (.inr params)

/-- `parse_params`. -/
def parseParams : P (List String) := do
  if (← peekMark) = some .rParen then pure []
  else do
    let name ← expectName .param
    tokenLoop moreParams [name]

/-- The rest of the arguments. -/
def moreArgs (args : List Expr) : P (List Expr ⊕ List Expr) := do
  if (← peekMark) = some .comma then do
    advance
    let e ← parseExpr sub ctx
    pure (.inl (args ++ [e]))
  else pure (.inr args)

/-- `parse_args`. -/
def parseArgs : P (List Expr) := do
  if (← peekMark) = some .rParen then pure []
  else do
    let e ← parseExpr sub ctx
    tokenLoop (moreArgs sub ctx) [e]

/-- The rest of the items of a list literal. -/
def moreItems (items : List Expr) : P (List Expr ⊕ List Expr) := do
  if (← peekMark) = some .comma then do
    advance
    -- a comma may end the list
    if (← peekMark) = some .rBracket then pure (.inr items)
    else do
      let e ← parseExpr sub ctx
      pure (.inl (items ++ [e]))
  else pure (.inr items)

/-- `parse_list_literal`. -/
def parseListLiteral : P Expr := do
  advance
  if (← peekMark) = some .rBracket then do
    advance
    pure (.list [])
  else do
    let e ← parseExpr sub ctx
    let items ← tokenLoop (moreItems sub ctx) [e]
    expect .rBracket
    let line ← currentLine
    checkExprDepth (.list items) line

/-- `expr: expr`. -/
def parsePair : P (Expr × Expr) := do
  let key ← parseExpr sub ctx
  expect .colon
  let value ← parseExpr sub ctx
  pure (key, value)

/-- The rest of the pairs of a dict literal. -/
def morePairs (pairs : List (Expr × Expr)) : P (List (Expr × Expr) ⊕ List (Expr × Expr)) := do
  if (← peekMark) = some .comma then do
    advance
    -- a comma may end the dict
    if (← peekMark) = some .rBrace then pure (.inr pairs)
    else do
      let pair ← parsePair sub ctx
      pure (.inl (pairs ++ [pair]))
  else pure (.inr pairs)

/-- `parse_dict_literal`. -/
def parseDictLiteral : P Expr := do
  advance
  if (← peekMark) = some .rBrace then do
    advance
    pure (.dict [])
  else do
    let pair ← parsePair sub ctx
    let pairs ← tokenLoop (morePairs sub ctx) [pair]
    expect .rBrace
    let line ← currentLine
    checkExprDepth (.dict pairs) line

/-- The tokens of an f-string part, with an `Eof` on the line of the last one. -/
def closePart (line : Nat) (tokens : List Spanned) : List Spanned :=
  tokens ++ [.mk (.mark .eof) ((tokens.getLast?.map Spanned.line).getD line)]

/-- Run a parser on the tokens of an f-string part, with a state of its own. Its list of
errors is dropped. -/
def inFString {α : Type} (line : Nat) (tokens : List Spanned) (m : P α) : P α where
  run s :=
    match m.run ⟨closePart line tokens, []⟩ with
    | (.ok a, t) =>
      if (headToken t.rest).mark? = some .eof then (.ok a, s)
      else (.error (.raised ⟨line, .fStringRest⟩), s)
    | (.error (.raised e), _) => (.error (.raised ⟨line, .inFString e.line e.problem⟩), s)
    | (.error .spent, _) => (.error .spent, s)

/-- The parts of an f-string. -/
def parseParts (line : Nat) : List FStrPart → P (List FStrExprPart)
  | [] => pure []
  | .literal s :: parts => do
    let rest ← parseParts line parts
    pure (.literal s :: rest)
  | .expr tokens :: parts => do
    let e ← inFString line tokens (parseExpr sub { ctx with fnDepth := 0 })
    let rest ← parseParts line parts
    pure (.expr e :: rest)

/-- `parse_fstr`. -/
def parseFstr (parts : List FStrPart) (line : Nat) : P Expr := do
  let parts ← parseParts sub ctx line parts
  checkExprDepth (.fStr parts) line

/-! ## Blocks and lambdas -/

/-- `parse_stmt`. -/
def parseStmt (isTopLevel : Bool) : P Stmt := do
  let s ← withParseDepth ctx false (sub.parseStmtInner isTopLevel)
  checkStmtDepth s

/-- One round of `parse_block`. -/
def blockStep (terminators : List Mark) (stmts : Block) : P (Block ⊕ Block) := do
  let mark ← peekMark
  if mark = some .eof ∨ ∃ m ∈ terminators, mark = some m then pure (.inr stmts)
  else if mark = some .«import» then do
    let e ← rejectNonTopLevelImport
    pushError e
    skipNewlines
    pure (.inl stmts)
  else if ctx.fnDepth = 0 ∧ mark = some .«return» then do
    let e ← rejectNonFunctionReturn
    pushError e
    skipNewlines
    pure (.inl stmts)
  else do
    let s ← parseStmt sub ctx false
    skipNewlines
    pure (.inl (stmts ++ [s]))

/-- `parse_block`. -/
def parseBlock (terminators : List Mark) : P Block := tokenLoop (blockStep sub ctx terminators) []

/-- `parse_anonymous_fn`. -/
def parseAnonymousFn : P Expr := do
  let lambdaLine ← currentLine
  advance
  expect .lParen
  let params ← parseParams
  expect .rParen
  if (← peekMark) = some .newline then do
    advance
    let body ← withFnContext ctx fun ctx => parseBlock sub ctx [.«end»]
    expect .«end»
    checkExprDepth (.lambda params body) lambdaLine
  else do
    let line ← currentLine
    if (← peekMark) = some .«return» then advance else pure ()
    let e ← parseExpr sub ctx
    expect .«end»
    checkExprDepth (.lambda params [.«return» e line]) lambdaLine

/-! ## Primaries, calls and operators -/

/-- `parse_primary`. -/
def parsePrimary : P Expr := do
  let line ← currentLine
  match ← peekToken with
  | .int n => do
    advance
    pure (.int n)
  | .float bits => do
    advance
    pure (.float bits)
  | .str s => do
    advance
    pure (.str s)
  | .fStr parts => do
    advance
    parseFstr sub ctx parts line
  | .mark .true => do
    advance
    pure (.bool true)
  | .mark .false => do
    advance
    pure (.bool false)
  | .mark .null => do
    advance
    pure .null
  | .ident name => do
    advance
    pure (.ident name)
  | .mark .print => do
    advance
    expect .lParen
    let args ← parseArgs sub ctx
    expect .rParen
    checkExprDepth (.call (.ident "print") args) line
  | .mark .lParen => do
    advance
    let e ← parseExpr sub ctx
    expect .rParen
    pure e
  | .mark .lBracket => parseListLiteral sub ctx
  | .mark .lBrace => parseDictLiteral sub ctx
  | .mark .fn => parseAnonymousFn sub ctx
  | .error message => do
    advance
    fail line (.lexer message)
  | .unknown c => do
    advance
    fail line (.unknownChar c)
  | other => fail line (.unexpectedToken other)

/-- One round of `parse_call`. -/
def callStep (e : Expr) : P (Expr ⊕ Expr) := do
  let line ← currentLine
  match ← peekMark with
  | some .lParen => do
    advance
    let args ← parseArgs sub ctx
    expect .rParen
    let e ← checkExprDepth (.call e args) line
    pure (.inl e)
  | some .lBracket => do
    advance
    let idx ← parseExpr sub ctx
    expect .rBracket
    let e ← checkExprDepth (.index e idx) line
    pure (.inl e)
  | _ => pure (.inr e)

/-- `parse_call`. -/
def parseCall : P Expr := do
  let e ← parsePrimary sub ctx
  tokenLoop (callStep sub ctx) e

/-- A unary operator and its operand. -/
def unaryOperation (op : UnaryOpKind) : P Expr := do
  let line ← currentLine
  advance
  let e ← withParseDepth ctx true sub.parseUnary
  checkExprDepth (.unaryOp op e) line

/-- `parse_unary`. -/
def parseUnary : P Expr := do
  match ← peekMark with
  | some .not => unaryOperation sub ctx .not
  | some .minus => unaryOperation sub ctx .neg
  | _ => parseCall sub ctx

end

/-- One more operand of a left associative operator. -/
def operandStep (ops : Mark → Option BinOpKind) (operand : P Expr) (left : Expr) :
    P (Expr ⊕ Expr) := do
  match (← peekMark).bind ops with
  | some op => do
    advance
    let right ← operand
    let line ← currentLine
    let e ← checkExprDepth (.binOp left op right) line
    pure (.inl e)
  | none => pure (.inr left)

/-- The operators of one level of precedence, all left associative. -/
def leftAssoc (ops : Mark → Option BinOpKind) (operand : P Expr) : P Expr := do
  let left ← operand
  tokenLoop (operandStep ops operand) left

def mulDivOps : Mark → Option BinOpKind
  | .star => some .mul
  | .slash => some .div
  | .percent => some .mod
  | _ => none

def addSubOps : Mark → Option BinOpKind
  | .plus => some .add
  | .minus => some .sub
  | _ => none

def comparisonOps : Mark → Option BinOpKind
  | .eq => some .eq
  | .notEq => some .notEq
  | .lt => some .lt
  | .gt => some .gt
  | .ltEq => some .ltEq
  | .gtEq => some .gtEq
  | _ => none

def andOps : Mark → Option BinOpKind
  | .and => some .and
  | _ => none

def orOps : Mark → Option BinOpKind
  | .or => some .or
  | _ => none

section

variable (sub : Level) (ctx : Ctx)

/-- `parse_mul_div`. -/
def parseMulDiv : P Expr := leftAssoc mulDivOps (parseUnary sub ctx)

/-- `parse_add_sub`. -/
def parseAddSub : P Expr := leftAssoc addSubOps (parseMulDiv sub ctx)

/-- `parse_comparison`. -/
def parseComparison : P Expr := leftAssoc comparisonOps (parseAddSub sub ctx)

/-- `parse_and`. -/
def parseAnd : P Expr := leftAssoc andOps (parseComparison sub ctx)

/-- `parse_or`. -/
def parseOr : P Expr := leftAssoc orOps (parseAnd sub ctx)

/-! ## Statements -/

/-- `is_assign_stmt`, at an identifier. -/
def isAssignStmt (rest : List Spanned) : Bool :=
  (rest.tail.head?.bind fun t => t.token.mark?) = some .assign

/-- The scan of `is_index_assign_stmt` for the bracket that closes the first one. -/
def scanIndexAssign : (depth : Nat) → List Spanned → Bool
  | _, [] => false
  | depth, t :: rest =>
    match t.token.mark? with
    | some .lBracket => scanIndexAssign (depth + 1) rest
    | some .rBracket =>
      if depth ≤ 1 then (rest.head?.bind fun t => t.token.mark?) = some .assign
      else scanIndexAssign (depth - 1) rest
    | some .eof => false
    | _ => scanIndexAssign depth rest

/-- `is_index_assign_stmt`, at an identifier. -/
def isIndexAssignStmt (rest : List Spanned) : Bool :=
  (rest.tail.head?.bind fun t => t.token.mark?) = some .lBracket && scanIndexAssign 0 rest.tail

/-- The name at an identifier; the callers have looked at it. -/
def takeName : P String := do
  match (← advanceSpanned).token with
  | .ident name => pure name
  | _ => pure ""

/-- `parse_assign`. -/
def parseAssign : P Stmt := do
  let line ← currentLine
  let name ← takeName
  advance
  let value ← parseExpr sub ctx
  expectNewlineOrEof
  pure (.assign name value line)

/-- `parse_index_assign`. -/
def parseIndexAssign : P Stmt := do
  let line ← currentLine
  let name ← takeName
  expect .lBracket
  let idx ← parseExpr sub ctx
  expect .rBracket
  expect .assign
  let value ← parseExpr sub ctx
  expectNewlineOrEof
  pure (.indexAssign name idx value line)

/-- `parse_let`. -/
def parseLet : P Stmt := do
  let line ← currentLine
  advance
  let name ← expectName .letName
  expect .assign
  let value ← parseExpr sub ctx
  expectNewlineOrEof
  pure (.«let» name value line)

/-- `parse_return`. -/
def parseReturn : P Stmt := do
  let line ← currentLine
  advance
  let value ← parseExpr sub ctx
  expectNewlineOrEof
  pure (.«return» value line)

/-- The rest of `parse_if` after the first body, up to the end of the statement. -/
def parseBranches : P Block := do
  match ← peekMark with
  | some .elif => do
    -- the `end` is that of the last branch
    let branch ← withParseDepth ctx false sub.parseIf
    pure [branch]
  | some .«else» => do
    advance
    expectNewline
    skipNewlines
    let body ← parseBlock sub ctx [.«end»]
    expect .«end»
    expectNewlineOrEof
    pure body
  | _ => do
    expect .«end»
    expectNewlineOrEof
    pure []

/-- `parse_if`. -/
def parseIf : P Stmt := do
  let line ← currentLine
  advance
  let condition ← parseExpr sub ctx
  expectNewline
  skipNewlines
  let thenBody ← parseBlock sub ctx [.«else», .elif, .«end»]
  let elseBody ← parseBranches sub ctx
  pure (.«if» condition thenBody elseBody line)

/-- `parse_while`. -/
def parseWhile : P Stmt := do
  let line ← currentLine
  advance
  let condition ← parseExpr sub ctx
  expectNewline
  skipNewlines
  let body ← parseBlock sub ctx [.«end»]
  expect .«end»
  expectNewlineOrEof
  pure (.«while» condition body line)

/-- `parse_for`. -/
def parseFor : P Stmt := do
  let line ← currentLine
  advance
  let var ← expectName .forVar
  expect .«in»
  let iter ← parseExpr sub ctx
  expectNewline
  skipNewlines
  let body ← parseBlock sub ctx [.«end»]
  expect .«end»
  expectNewlineOrEof
  pure (.«for» var iter body line)

/-- `parse_break`. -/
def parseBreak : P Stmt := do
  let line ← currentLine
  advance
  expectNewlineOrEof
  pure (.«break» line)

/-- `parse_continue`. -/
def parseContinue : P Stmt := do
  let line ← currentLine
  advance
  expectNewlineOrEof
  pure (.«continue» line)

/-- `parse_import`. -/
def parseImport : P Stmt := do
  let line ← currentLine
  advance
  let spanned ← advanceSpanned
  match spanned.token with
  | .str path => do
    expectNewlineOrEof
    pure (.«import» path line)
  | _ => fail line .importPath

/-- `parse_try_catch`. -/
def parseTryCatch : P Stmt := do
  let line ← currentLine
  advance
  expectNewline
  skipNewlines
  let tryBody ← parseBlock sub ctx [.«catch»]
  expect .«catch»
  let var ← expectName .catchVar
  expectNewline
  skipNewlines
  let catchBody ← parseBlock sub ctx [.«end»]
  expect .«end»
  expectNewlineOrEof
  pure (.tryCatch tryBody var catchBody line)

/-- `parse_fn_def`. -/
def parseFnDef : P Stmt := do
  let line ← currentLine
  advance
  let name ← expectName .fnName
  expect .lParen
  let params ← parseParams
  expect .rParen
  expectNewline
  skipNewlines
  let body ← withFnContext ctx fun ctx => parseBlock sub ctx [.«end»]
  expect .«end»
  expectNewlineOrEof
  pure (.fnDef name params body line)

/-- `parse_expr_stmt`. -/
def parseExprStmt : P Stmt := do
  let line ← currentLine
  let e ← parseExpr sub ctx
  expectNewlineOrEof
  pure (.exprStmt e line)

/-- An error that is returned. -/
def failWith {α : Type} (reject : P ParseError) : P α := do
  let e ← reject
  stop (.raised e)

/-- `parse_stmt_inner`. -/
def parseStmtInner (isTopLevel : Bool) : P Stmt := do
  match ← peekToken with
  | .mark .«let» => parseLet sub ctx
  | .mark .«return» =>
    if 0 < ctx.fnDepth then parseReturn sub ctx else failWith rejectNonFunctionReturn
  | .mark .«if» => parseIf sub ctx
  | .mark .«while» => parseWhile sub ctx
  | .mark .«for» => parseFor sub ctx
  | .mark .fn => parseFnDef sub ctx
  | .mark .«break» => parseBreak
  | .mark .«continue» => parseContinue
  | .mark .«import» => if isTopLevel then parseImport else failWith rejectNonTopLevelImport
  | .mark .«try» => parseTryCatch sub ctx
  | .ident _ => do
    let rest ← gets State.rest
    if isAssignStmt rest then parseAssign sub ctx
    else if isIndexAssignStmt rest then parseIndexAssign sub ctx
    else parseExprStmt sub ctx
  | _ => parseExprStmt sub ctx

end

/-! ## Levels -/

/-- The functions of a level over those of the level below it. -/
def nextLevel (sub : Level) : Level where
  parseOr := parseOr sub
  parseUnary := parseUnary sub
  parseStmtInner isTopLevel ctx := parseStmtInner sub ctx isTopLevel
  parseIf := parseIf sub

/-- A level that can go through the guard `n` times. -/
def level : Nat → Level
  | 0 =>
    { parseOr := fun _ => stop .spent
      parseUnary := fun _ => stop .spent
      parseStmtInner := fun _ _ => stop .spent
      parseIf := fun _ => stop .spent }
  | n + 1 => nextLevel (level n)

/-! ## Programs -/

/-- The error that `parse` recovers from. -/
def Stop.raised? : Stop → Option ParseError
  | .raised e => some e
  | .spent => none

/-- The part of a round of `parse` that follows a statement, or an error. -/
def afterStmt (stmts : Program) : Except ParseError Stmt → P (Program ⊕ Program)
  | .ok s => do
    skipNewlines
    pure (.inl (stmts ++ [s]))
  | .error e => do
    pushError e
    synchronize
    skipNewlines
    pure (.inl stmts)

/-- One round of `parse`. -/
def programStep (sub : Level) (stmts : Program) : P (Program ⊕ Program) := do
  if ← isAtEnd then pure (.inr stmts)
  else do
    let r ← (parseStmt sub ⟨0, 0⟩ true).attempt Stop.raised?
    afterStmt stmts r

/-- The loop of `parse`. -/
def parseProgram : P Program := do
  skipNewlines
  tokenLoop (programStep (level maxAstDepth)) []

/-- What `parse` answers; `spent` if the model has run out of fuel. -/
inductive Parsed
  | accepted (program : Program)
  | rejected (errors : List ParseError)
  | spent

/-- `Parser::parse`. -/
def parse (tokens : List Spanned) : Parsed :=
  match parseProgram.run ⟨tokens, []⟩ with
  | (.ok program, s) => if s.errors.isEmpty then .accepted program else .rejected s.errors
  -- only a spent computation stops here
  | (.error _, _) => .spent

end Tsumugi.Syntax
