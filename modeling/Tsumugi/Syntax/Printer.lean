import Tsumugi.Syntax.ParserComplete

/-!
# A printer

The tokens of a syntax tree, with parentheses only where the levels of precedence ask for
them: around an operand that binds less tightly than its place, and around a lambda that a
statement would begin with. What is printed for a statement stands on its line.

`need` is how deep the derivation of the printed tokens nests, and `Placed` says where a
`return` and an `import` may stand.

Results:
1. `ops_opMark`: the mark of an operator is one of its level.
2. `opPrec_of_ops`: an operator stands on one level.
-/

namespace Tsumugi.Syntax

/-! ## Operators -/

/-- The level of an operator. -/
def opPrec : BinOpKind → Prec
  | .or => .or
  | .and => .and
  | .eq | .notEq | .lt | .gt | .ltEq | .gtEq => .comparison
  | .add | .sub => .addSub
  | .mul | .div | .mod => .mulDiv

def opMark : BinOpKind → Mark
  | .or => .or
  | .and => .and
  | .eq => .eq
  | .notEq => .notEq
  | .lt => .lt
  | .gt => .gt
  | .ltEq => .ltEq
  | .gtEq => .gtEq
  | .add => .plus
  | .sub => .minus
  | .mul => .star
  | .div => .slash
  | .mod => .percent

def unaryMark : UnaryOpKind → Mark
  | .not => .not
  | .neg => .minus

theorem ops_opMark (op : BinOpKind) : (opPrec op).ops (opMark op) = some op := by cases op <;> rfl

theorem unaryOps_unaryMark (op : UnaryOpKind) : unaryOps (unaryMark op) = some op := by
  cases op <;> rfl

/-- An operator stands on one level. -/
theorem opPrec_of_ops {p : Prec} {m : Mark} {op : BinOpKind} (h : p.ops m = some op) :
    opPrec op = p := by
  cases p <;> cases m <;> cases h <;> rfl

/-! ## Tokens -/

/-- Parentheses, where they are asked for. -/
def parens (wrapped : Bool) (l : Nat) (ts : List Spanned) : List Spanned :=
  if wrapped then tok .lParen l :: (ts ++ [tok .rParen l]) else ts

/-- The word `print`, which is called without being an identifier. -/
def isPrint : Expr → Bool
  | .ident name => name == "print"
  | _ => false

/-- Parameters or other names, with a comma between them. -/
def namesPrint (l : Nat) : List String → List Spanned
  | [] => []
  | name :: rest => .mk (.ident name) l :: rest.flatMap fun name => [tok .comma l, .mk (.ident name) l]

mutual

/-- The tokens of an expression on a line, where an operand of rank `k` stands. `g` asks that it
does not begin with `fn`. -/
def exprPrint (g : Bool) (k l : Nat) : Expr → List Spanned
  | .int n => [.mk (.int n) l]
  | .float bits => [.mk (.float bits) l]
  | .str s => [.mk (.str s) l]
  | .bool b => [tok (if b then .true else .false) l]
  | .null => [tok .null l]
  | .ident name => [.mk (.ident name) l]
  | .list items => tok .lBracket l :: (exprsPrint l [] items ++ [tok .rBracket l])
  | .dict pairs => tok .lBrace l :: (pairsPrint l [] pairs ++ [tok .rBrace l])
  | .fStr parts => [.mk (.fStr (partsPrint l parts)) l]
  | .binOp left op right =>
    let wrapped := decide ((opPrec op).rank < k)
    parens wrapped l
      (exprPrint (g && !wrapped) (opPrec op).rank l left ++
        tok (opMark op) l :: exprPrint false ((opPrec op).rank + 1) l right)
  | .unaryOp op e => parens (5 < k) l (tok (unaryMark op) l :: exprPrint false 5 l e)
  | .call callee args =>
    if isPrint callee then
      tok .print l :: tok .lParen l :: (exprsPrint l [] args ++ [tok .rParen l])
    else exprPrint g 6 l callee ++ tok .lParen l :: (exprsPrint l [] args ++ [tok .rParen l])
  | .index object idx =>
    exprPrint g 6 l object ++ tok .lBracket l :: (exprPrint false 0 l idx ++ [tok .rBracket l])
  | .lambda params body =>
    parens g l (tok .fn l :: tok .lParen l ::
      (namesPrint l params ++ tok .rParen l :: (bodyPrint l body ++ [tok .«end» l])))

/-- Expressions with a comma between them, and what stands before the first. -/
def exprsPrint (l : Nat) (before : List Spanned) : List Expr → List Spanned
  | [] => []
  | e :: rest => before ++ (exprPrint false 0 l e ++ exprsPrint l [tok .comma l] rest)

def pairsPrint (l : Nat) (before : List Spanned) : List (Expr × Expr) → List Spanned
  | [] => []
  | (k, v) :: rest =>
    before ++ (exprPrint false 0 l k ++ tok .colon l ::
      (exprPrint false 0 l v ++ pairsPrint l [tok .comma l] rest))

def partsPrint (l : Nat) : List FStrExprPart → List FStrPart
  | [] => []
  | .literal s :: rest => .literal s :: partsPrint l rest
  | .expr e :: rest => .expr (exprPrint false 0 l e) :: partsPrint l rest

/-- The body of a lambda: one that only returns stands on the line of the lambda. -/
def bodyPrint (l : Nat) : List Stmt → List Spanned
  | [] => [tok .newline l]
  | s :: rest =>
    match s, rest with
    | .«return» e l', [] => tok .«return» l' :: exprPrint false 0 l' e
    | s, rest => tok .newline l :: (stmtPrint s ++ stmtsPrint rest)

/-- The tokens of a statement. -/
def stmtPrint : Stmt → List Spanned
  | .«let» name e l =>
    tok .«let» l :: .mk (.ident name) l :: tok .assign l ::
      (exprPrint false 0 l e ++ [tok .newline l])
  | .assign name e l =>
    .mk (.ident name) l :: tok .assign l :: (exprPrint false 0 l e ++ [tok .newline l])
  | .indexAssign name idx e l =>
    .mk (.ident name) l :: tok .lBracket l :: (exprPrint false 0 l idx ++
      tok .rBracket l :: tok .assign l :: (exprPrint false 0 l e ++ [tok .newline l]))
  | .«return» e l => tok .«return» l :: (exprPrint false 0 l e ++ [tok .newline l])
  | .«if» c thenBody elseBody l =>
    tok .«if» l :: (exprPrint false 0 l c ++ tok .newline l :: (stmtsPrint thenBody ++
      ((if elseBody.isEmpty then [] else tok .«else» l :: tok .newline l :: stmtsPrint elseBody) ++
        [tok .«end» l, tok .newline l])))
  | .«while» c body l =>
    tok .«while» l :: (exprPrint false 0 l c ++ tok .newline l :: (stmtsPrint body ++
      [tok .«end» l, tok .newline l]))
  | .«for» var iter body l =>
    tok .«for» l :: .mk (.ident var) l :: tok .«in» l :: (exprPrint false 0 l iter ++
      tok .newline l :: (stmtsPrint body ++ [tok .«end» l, tok .newline l]))
  | .fnDef name params body l =>
    tok .fn l :: .mk (.ident name) l :: tok .lParen l :: (namesPrint l params ++
      tok .rParen l :: tok .newline l :: (stmtsPrint body ++ [tok .«end» l, tok .newline l]))
  | .«break» l => [tok .«break» l, tok .newline l]
  | .«continue» l => [tok .«continue» l, tok .newline l]
  | .«import» path l => [tok .«import» l, .mk (.str path) l, tok .newline l]
  | .tryCatch tryBody var catchBody l =>
    tok .«try» l :: tok .newline l :: (stmtsPrint tryBody ++
      tok .«catch» l :: .mk (.ident var) l :: tok .newline l :: (stmtsPrint catchBody ++
        [tok .«end» l, tok .newline l]))
  | .exprStmt e l => exprPrint true 0 l e ++ [tok .newline l]

def stmtsPrint : List Stmt → List Spanned
  | [] => []
  | s :: rest => stmtPrint s ++ stmtsPrint rest

end

/-- The tokens of a program. -/
def print (program : Program) : List Spanned := stmtsPrint program ++ [tok .eof 1]

/-! ## How deep they nest -/

/-- One deeper in parentheses. -/
def parensNeed (wrapped : Bool) (n : Nat) : Nat := if wrapped then n + 1 else n

mutual

def exprNeed (g : Bool) (k : Nat) : Expr → Nat
  | .int _ | .float _ | .str _ | .bool _ | .null | .ident _ => 0
  | .list items => exprsNeed items
  | .dict pairs => pairsNeed pairs
  | .fStr parts => partsNeed parts
  | .binOp left op right =>
    let wrapped := decide ((opPrec op).rank < k)
    parensNeed wrapped
      (max (exprNeed (g && !wrapped) (opPrec op).rank left)
        (exprNeed false ((opPrec op).rank + 1) right))
  | .unaryOp _ e => parensNeed (5 < k) (exprNeed false 5 e + 1)
  | .call callee args =>
    if isPrint callee then exprsNeed args else max (exprNeed g 6 callee) (exprsNeed args)
  | .index object idx => max (exprNeed g 6 object) (exprNeed false 0 idx + 1)
  | .lambda _ body => parensNeed g (bodyNeed body)

def exprsNeed : List Expr → Nat
  | [] => 0
  | e :: rest => max (exprNeed false 0 e + 1) (exprsNeed rest)

def pairsNeed : List (Expr × Expr) → Nat
  | [] => 0
  | (k, v) :: rest => max (max (exprNeed false 0 k + 1) (exprNeed false 0 v + 1)) (pairsNeed rest)

def partsNeed : List FStrExprPart → Nat
  | [] => 0
  | .literal _ :: rest => partsNeed rest
  | .expr e :: rest => max (exprNeed false 0 e + 1) (partsNeed rest)

def bodyNeed : List Stmt → Nat
  | [] => 0
  | s :: rest =>
    match s, rest with
    | .«return» e _, [] => exprNeed false 0 e + 1
    | s, rest => max (formNeed s + 1) (stmtsNeed rest)

/-- How deep the form of a statement nests. -/
def formNeed : Stmt → Nat
  | .«let» _ e _ | .assign _ e _ | .«return» e _ => exprNeed false 0 e + 1
  | .indexAssign _ idx e _ => max (exprNeed false 0 idx + 1) (exprNeed false 0 e + 1)
  | .«if» c thenBody elseBody _ =>
    max (exprNeed false 0 c + 1) (max (stmtsNeed thenBody) (stmtsNeed elseBody))
  | .«while» c body _ | .«for» _ c body _ => max (exprNeed false 0 c + 1) (stmtsNeed body)
  | .fnDef _ _ body _ => stmtsNeed body
  | .tryCatch tryBody _ catchBody _ => max (stmtsNeed tryBody) (stmtsNeed catchBody)
  | .«break» _ | .«continue» _ | .«import» _ _ => 0
  | .exprStmt e _ => exprNeed true 0 e + 1

def stmtsNeed : List Stmt → Nat
  | [] => 0
  | s :: rest => max (formNeed s + 1) (stmtsNeed rest)

end

/-! ## Where statements may stand -/

mutual

/-- A `return` in the expression stands in the body of a lambda, and no `import` does. -/
def exprPlaced : Expr → Prop
  | .int _ | .float _ | .str _ | .bool _ | .null | .ident _ => True
  | .list items => exprsPlaced items
  | .dict pairs => pairsPlaced pairs
  | .fStr parts => partsPlaced parts
  | .binOp left _ right => exprPlaced left ∧ exprPlaced right
  | .unaryOp _ e => exprPlaced e
  | .call callee args => exprPlaced callee ∧ exprsPlaced args
  | .index object idx => exprPlaced object ∧ exprPlaced idx
  | .lambda _ body => stmtsPlaced true false body

def exprsPlaced : List Expr → Prop
  | [] => True
  | e :: rest => exprPlaced e ∧ exprsPlaced rest

def pairsPlaced : List (Expr × Expr) → Prop
  | [] => True
  | (k, v) :: rest => (exprPlaced k ∧ exprPlaced v) ∧ pairsPlaced rest

def partsPlaced : List FStrExprPart → Prop
  | [] => True
  | .literal _ :: rest => partsPlaced rest
  | .expr e :: rest => exprPlaced e ∧ partsPlaced rest

/-- A `return` stands in a function, and an `import` at the top level. -/
def stmtPlaced (inFn top : Bool) : Stmt → Prop
  | .«let» _ e _ | .assign _ e _ | .exprStmt e _ => exprPlaced e
  | .«return» e _ => inFn = true ∧ exprPlaced e
  | .indexAssign _ idx e _ => exprPlaced idx ∧ exprPlaced e
  | .«if» c thenBody elseBody _ =>
    exprPlaced c ∧ stmtsPlaced inFn false thenBody ∧ stmtsPlaced inFn false elseBody
  | .«while» c body _ | .«for» _ c body _ => exprPlaced c ∧ stmtsPlaced inFn false body
  | .fnDef _ _ body _ => stmtsPlaced true false body
  | .tryCatch tryBody _ catchBody _ =>
    stmtsPlaced inFn false tryBody ∧ stmtsPlaced inFn false catchBody
  | .«break» _ | .«continue» _ => True
  | .«import» _ _ => top = true

def stmtsPlaced (inFn top : Bool) : List Stmt → Prop
  | [] => True
  | s :: rest => stmtPlaced inFn top s ∧ stmtsPlaced inFn top rest

end

end Tsumugi.Syntax
