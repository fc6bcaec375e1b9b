import Tsumugi.Syntax.Parser

/-!
# The grammar

What the tokens of a program are, apart from any way to parse them. A phrase is derived
between two token lists: the tokens it begins at and those that follow it. Derivations
carry the depth of nesting, which expressions, unary operands, statements and `elif`
branches add one to, and whether they stand inside a function.

Binary operators are left associative; their levels of precedence, from the loosest to
the tightest, are `or`, `and`, the comparisons, `+ -` and `* / %`. Unary operators, calls
and primaries bind tighter than these.
-/

namespace Tsumugi.Syntax

/-- The levels of precedence of the binary operators. -/
inductive Prec
  | or | and | comparison | addSub | mulDiv
deriving DecidableEq, Repr

/-- The operators of a level. -/
def Prec.ops : Prec → Mark → Option BinOpKind
  | .or => orOps
  | .and => andOps
  | .comparison => comparisonOps
  | .addSub => addSubOps
  | .mulDiv => mulDivOps

/-- The unary operators. -/
def unaryOps : Mark → Option UnaryOpKind
  | .not => some .not
  | .minus => some .neg
  | _ => none

/-- What a derivation derives. -/
inductive Phrase
  | expr (e : Expr)
  | binary (prec : Prec) (e : Expr)
  | unary (e : Expr)
  | call (e : Expr)
  | primary (e : Expr)
  | args (args : List Expr)
  /-- The rest of a list of expressions; a list literal may end in a comma. -/
  | moreExprs (literal : Bool) (es : List Expr)
  | pair (pair : Expr × Expr)
  | morePairs (pairs : List (Expr × Expr))
  | parts (line : Nat) (parts : List FStrPart) (result : List FStrExprPart)
  | params (names : List String)
  | moreParams (names : List String)
  | block (terminators : List Mark) (stmts : Block)
  | stmt (isTopLevel : Bool) (s : Stmt)
  | form (isTopLevel : Bool) (s : Stmt)
  | conditional (s : Stmt)
  | branches (elseBody : Block)
  | program (stmts : Program)

/-- The operands of a level of precedence. -/
def Prec.operand : Prec → Expr → Phrase
  | .or => .binary .and
  | .and => .binary .comparison
  | .comparison => .binary .addSub
  | .addSub => .binary .mulDiv
  | .mulDiv => .unary

/-- A mark on a line. -/
abbrev tok (m : Mark) (line : Nat) : Spanned := .mk (.mark m) line

/-- The mark of the first token. -/
def headMark (ts : List Spanned) : Option Mark := (headToken ts).mark?

/-- The line of the first token. -/
def headLine (ts : List Spanned) : Nat := (ts.head?.map Spanned.line).getD 0

/-- The tokens after blank lines. -/
def dropNewlines (ts : List Spanned) : List Spanned :=
  ts.dropWhile fun t => t.token.mark? = some .newline

/-- A statement ends with its line or at the end. -/
inductive LineEnd : List Spanned → List Spanned → Prop
  | newline {line r} : LineEnd (tok .newline line :: r) r
  | eof {r} (h : headMark r = some .eof) : LineEnd r r

/-- The word `return` may stand before the body of a lambda on one line. -/
def afterReturn (ts : List Spanned) : List Spanned :=
  if headMark ts = some .«return» then ts.tail else ts

/-- `Derives depth inFn φ ts r`: the tokens `ts` begin with the phrase `φ`, and `r` is
left. -/
inductive Derives : (depth : Nat) → (inFn : Bool) → Phrase → List Spanned → List Spanned → Prop
  -- expressions
  | expr {d f e ts r} (hd : d < maxAstDepth) (h : Derives (d + 1) f (.binary .or e) ts r) :
      Derives d f (.expr e) ts r
  | operand {d f p e ts r} (h : Derives d f (p.operand e) ts r) : Derives d f (.binary p e) ts r
  | operation {d f p left op right m l ts mid r} (hop : p.ops m = some op)
      (hleft : Derives d f (.binary p left) ts (tok m l :: mid))
      (hright : Derives d f (p.operand right) mid r) :
      Derives d f (.binary p (.binOp left op right)) ts r
  | unaryCall {d f e ts r} (h : Derives d f (.call e) ts r) : Derives d f (.unary e) ts r
  | unaryOp {d f op e m l ts r} (hd : d < maxAstDepth) (hop : unaryOps m = some op)
      (h : Derives (d + 1) f (.unary e) ts r) :
      Derives d f (.unary (.unaryOp op e)) (tok m l :: ts) r
  | callPrimary {d f e ts r} (h : Derives d f (.primary e) ts r) : Derives d f (.call e) ts r
  | callArgs {d f callee args l l' ts mid r}
      (hcallee : Derives d f (.call callee) ts (tok .lParen l :: mid))
      (hargs : Derives d f (.args args) mid (tok .rParen l' :: r)) :
      Derives d f (.call (.call callee args)) ts r
  | callIndex {d f object idx l l' ts mid r}
      (hobject : Derives d f (.call object) ts (tok .lBracket l :: mid))
      (hidx : Derives d f (.expr idx) mid (tok .rBracket l' :: r)) :
      Derives d f (.call (.index object idx)) ts r
  -- lists of expressions
  | argsNil {d f l r} : Derives d f (.args []) (tok .rParen l :: r) (tok .rParen l :: r)
  | argsCons {d f e es ts mid r} (h : Derives d f (.expr e) ts mid)
      (hmore : Derives d f (.moreExprs false es) mid r) : Derives d f (.args (e :: es)) ts r
  | moreNil {d f literal r} : Derives d f (.moreExprs literal []) r r
  | moreTrailing {d f l l' r} :
      Derives d f (.moreExprs true []) (tok .comma l :: tok .rBracket l' :: r)
        (tok .rBracket l' :: r)
  | moreCons {d f literal e es l ts mid r} (h : Derives d f (.expr e) ts mid)
      (hmore : Derives d f (.moreExprs literal es) mid r) :
      Derives d f (.moreExprs literal (e :: es)) (tok .comma l :: ts) r
  | pair {d f k v l ts mid r} (hk : Derives d f (.expr k) ts (tok .colon l :: mid))
      (hv : Derives d f (.expr v) mid r) : Derives d f (.pair (k, v)) ts r
  | pairsNil {d f r} : Derives d f (.morePairs []) r r
  | pairsTrailing {d f l l' r} :
      Derives d f (.morePairs []) (tok .comma l :: tok .rBrace l' :: r) (tok .rBrace l' :: r)
  | pairsCons {d f p ps l ts mid r} (h : Derives d f (.pair p) ts mid)
      (hmore : Derives d f (.morePairs ps) mid r) :
      Derives d f (.morePairs (p :: ps)) (tok .comma l :: ts) r
  -- primaries
  | int {d f n l r} : Derives d f (.primary (.int n)) (.mk (.int n) l :: r) r
  | float {d f bits l r} : Derives d f (.primary (.float bits)) (.mk (.float bits) l :: r) r
  | str {d f s l r} : Derives d f (.primary (.str s)) (.mk (.str s) l :: r) r
  | boolTrue {d f l r} : Derives d f (.primary (.bool true)) (tok .true l :: r) r
  | boolFalse {d f l r} : Derives d f (.primary (.bool false)) (tok .false l :: r) r
  | null {d f l r} : Derives d f (.primary .null) (tok .null l :: r) r
  | ident {d f name l r} : Derives d f (.primary (.ident name)) (.mk (.ident name) l :: r) r
  | print {d f args l l' l'' ts r} (h : Derives d f (.args args) ts (tok .rParen l'' :: r)) :
      Derives d f (.primary (.call (.ident "print") args)) (tok .print l :: tok .lParen l' :: ts) r
  | paren {d f e l l' ts r} (h : Derives d f (.expr e) ts (tok .rParen l' :: r)) :
      Derives d f (.primary e) (tok .lParen l :: ts) r
  | listNil {d f l l' r} :
      Derives d f (.primary (.list [])) (tok .lBracket l :: tok .rBracket l' :: r) r
  | list {d f e es l l' ts mid r} (h : Derives d f (.expr e) ts mid)
      (hmore : Derives d f (.moreExprs true es) mid (tok .rBracket l' :: r)) :
      Derives d f (.primary (.list (e :: es))) (tok .lBracket l :: ts) r
  | dictNil {d f l l' r} :
      Derives d f (.primary (.dict [])) (tok .lBrace l :: tok .rBrace l' :: r) r
  | dict {d f p ps l l' ts mid r} (h : Derives d f (.pair p) ts mid)
      (hmore : Derives d f (.morePairs ps) mid (tok .rBrace l' :: r)) :
      Derives d f (.primary (.dict (p :: ps))) (tok .lBrace l :: ts) r
  | fStr {d f parts result l r} (h : Derives d f (.parts l parts result) [] []) :
      Derives d f (.primary (.fStr result)) (.mk (.fStr parts) l :: r) r
  | lambdaBlock {d f params body l l₁ l₂ l₃ l₄ ts mid r}
      (hparams : Derives d f (.params params) ts (tok .rParen l₂ :: tok .newline l₃ :: mid))
      (hbody : Derives d true (.block [.«end»] body) mid (tok .«end» l₄ :: r)) :
      Derives d f (.primary (.lambda params body)) (tok .fn l :: tok .lParen l₁ :: ts) r
  | lambdaExpr {d f params e l l₁ l₂ l₃ ts mid r}
      (hparams : Derives d f (.params params) ts (tok .rParen l₂ :: mid))
      (hbody : Derives d f (.expr e) (afterReturn mid) (tok .«end» l₃ :: r)) :
      Derives d f (.primary (.lambda params [.«return» e (headLine mid)]))
        (tok .fn l :: tok .lParen l₁ :: ts) r
  -- the parts of an f-string
  | partsNil {d f l} : Derives d f (.parts l [] []) [] []
  | partsLiteral {d f l s parts result} (h : Derives d f (.parts l parts result) [] []) :
      Derives d f (.parts l (.literal s :: parts) (.literal s :: result)) [] []
  | partsExpr {d f l tokens e r parts result}
      (h : Derives d false (.expr e) (closePart l tokens) r) (hr : headMark r = some .eof)
      (hmore : Derives d f (.parts l parts result) [] []) :
      Derives d f (.parts l (.expr tokens :: parts) (.expr e :: result)) [] []
  -- parameters
  | paramsNil {d f l r} : Derives d f (.params []) (tok .rParen l :: r) (tok .rParen l :: r)
  | paramsCons {d f name names l ts r} (h : Derives d f (.moreParams names) ts r) :
      Derives d f (.params (name :: names)) (.mk (.ident name) l :: ts) r
  | moreParamsNil {d f r} : Derives d f (.moreParams []) r r
  | moreParamsCons {d f name names l l' ts r} (h : Derives d f (.moreParams names) ts r) :
      Derives d f (.moreParams (name :: names)) (tok .comma l :: .mk (.ident name) l' :: ts) r
  -- blocks and statements
  | blockNil {d f terminators r} (h : headMark r = some .eof ∨ ∃ m ∈ terminators, headMark r = some m) :
      Derives d f (.block terminators []) r r
  | blockCons {d f terminators s stmts ts mid r} (h : Derives d f (.stmt false s) ts mid)
      (hmore : Derives d f (.block terminators stmts) (dropNewlines mid) r) :
      Derives d f (.block terminators (s :: stmts)) ts r
  | stmt {d f top s ts r} (hd : d < maxAstDepth) (h : Derives (d + 1) f (.form top s) ts r) :
      Derives d f (.stmt top s) ts r
  | «let» {d f top name e l l₁ l₂ ts mid r} (h : Derives d f (.expr e) ts mid)
      (hend : LineEnd mid r) :
      Derives d f (.form top (.«let» name e l))
        (tok .«let» l :: .mk (.ident name) l₁ :: tok .assign l₂ :: ts) r
  | assign {d f top name e l l₁ ts mid r} (h : Derives d f (.expr e) ts mid)
      (hend : LineEnd mid r) :
      Derives d f (.form top (.assign name e l)) (.mk (.ident name) l :: tok .assign l₁ :: ts) r
  | indexAssign {d f top name idx e l l₁ l₂ l₃ ts mid mid' r}
      (hidx : Derives d f (.expr idx) ts (tok .rBracket l₂ :: tok .assign l₃ :: mid))
      (h : Derives d f (.expr e) mid mid') (hend : LineEnd mid' r) :
      Derives d f (.form top (.indexAssign name idx e l))
        (.mk (.ident name) l :: tok .lBracket l₁ :: ts) r
  | «return» {d top e l ts mid r} (h : Derives d true (.expr e) ts mid) (hend : LineEnd mid r) :
      Derives d true (.form top (.«return» e l)) (tok .«return» l :: ts) r
  | «if» {d f top s l ts r} (h : Derives d f (.conditional s) (tok .«if» l :: ts) r) :
      Derives d f (.form top s) (tok .«if» l :: ts) r
  | «while» {d f top c body l l₁ l₂ ts mid mid' r} (h : Derives d f (.expr c) ts (tok .newline l₁ :: mid))
      (hbody : Derives d f (.block [.«end»] body) (dropNewlines mid) (tok .«end» l₂ :: mid'))
      (hend : LineEnd mid' r) :
      Derives d f (.form top (.«while» c body l)) (tok .«while» l :: ts) r
  | «for» {d f top var iter body l l₁ l₂ l₃ l₄ ts mid mid' r}
      (h : Derives d f (.expr iter) ts (tok .newline l₃ :: mid))
      (hbody : Derives d f (.block [.«end»] body) (dropNewlines mid) (tok .«end» l₄ :: mid'))
      (hend : LineEnd mid' r) :
      Derives d f (.form top (.«for» var iter body l))
        (tok .«for» l :: .mk (.ident var) l₁ :: tok .«in» l₂ :: ts) r
  | fnDef {d f top name params body l l₁ l₂ l₃ l₄ l₅ ts mid mid' r}
      (hparams : Derives d f (.params params) ts (tok .rParen l₃ :: tok .newline l₄ :: mid))
      (hbody : Derives d true (.block [.«end»] body) (dropNewlines mid) (tok .«end» l₅ :: mid'))
      (hend : LineEnd mid' r) :
      Derives d f (.form top (.fnDef name params body l))
        (tok .fn l :: .mk (.ident name) l₁ :: tok .lParen l₂ :: ts) r
  | «break» {d f top l ts r} (hend : LineEnd ts r) :
      Derives d f (.form top (.«break» l)) (tok .«break» l :: ts) r
  | «continue» {d f top l ts r} (hend : LineEnd ts r) :
      Derives d f (.form top (.«continue» l)) (tok .«continue» l :: ts) r
  | «import» {d f path l l₁ ts r} (hend : LineEnd ts r) :
      Derives d f (.form true (.«import» path l)) (tok .«import» l :: .mk (.str path) l₁ :: ts) r
  | tryCatch {d f top tryBody var catchBody l l₁ l₂ l₃ l₄ l₅ ts mid mid' r}
      (htry : Derives d f (.block [.«catch»] tryBody) (dropNewlines ts)
        (tok .«catch» l₂ :: .mk (.ident var) l₃ :: tok .newline l₄ :: mid))
      (hcatch : Derives d f (.block [.«end»] catchBody) (dropNewlines mid) (tok .«end» l₅ :: mid'))
      (hend : LineEnd mid' r) :
      Derives d f (.form top (.tryCatch tryBody var catchBody l))
        (tok .«try» l :: tok .newline l₁ :: ts) r
  -- a statement that begins with `fn` is a definition
  | exprStmt {d f top e ts mid r} (hfn : headMark ts ≠ some .fn) (h : Derives d f (.expr e) ts mid)
      (hend : LineEnd mid r) : Derives d f (.form top (.exprStmt e (headLine ts))) ts r
  -- `if` and `elif`
  | conditional {d f c thenBody elseBody l l₁ t ts mid mid' r}
      (ht : t = .«if» ∨ t = .elif) (h : Derives d f (.expr c) ts (tok .newline l₁ :: mid))
      (hthen : Derives d f (.block [.«else», .elif, .«end»] thenBody) (dropNewlines mid) mid')
      (helse : Derives d f (.branches elseBody) mid' r) :
      Derives d f (.conditional (.«if» c thenBody elseBody l)) (tok t l :: ts) r
  | branchElif {d f s l ts r} (hd : d < maxAstDepth)
      (h : Derives (d + 1) f (.conditional s) (tok .elif l :: ts) r) :
      Derives d f (.branches [s]) (tok .elif l :: ts) r
  | branchElse {d f body l l₁ l₂ ts mid r}
      (h : Derives d f (.block [.«end»] body) (dropNewlines ts) (tok .«end» l₂ :: mid))
      (hend : LineEnd mid r) :
      Derives d f (.branches body) (tok .«else» l :: tok .newline l₁ :: ts) r
  | branchNone {d f l ts r} (hend : LineEnd ts r) : Derives d f (.branches []) (tok .«end» l :: ts) r
  -- programs
  | programNil {d f r} (h : headMark r = some .eof) : Derives d f (.program []) r r
  | programCons {d f s stmts ts mid r} (h : Derives d f (.stmt true s) ts mid)
      (hmore : Derives d f (.program stmts) (dropNewlines mid) r) :
      Derives d f (.program (s :: stmts)) ts r

/-- The tokens are a program of the language, within the limit on the depth. -/
def DerivesProgram (tokens : List Spanned) (program : Program) : Prop :=
  (∃ r, Derives 0 false (.program program) (dropNewlines tokens) r) ∧
    stmtsExcessiveDepthLine 1 program = none

end Tsumugi.Syntax
