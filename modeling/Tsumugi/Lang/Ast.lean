import Mathlib.Data.List.Dedup

/-!
# Syntax (`ast.rs`)

Statements and expressions, and the questions the evaluator asks about them:
which expressions contain a call, the child of an expression at a position, and
the expression that a slot and a path of child positions name. Bodies are lists;
the reference-counted sharing of `Block` is not seen by any of this.
-/

namespace Tsumugi

/-- `BinOpKind`. -/
inductive BinOpKind
  | add | sub | mul | div | mod | eq | notEq | lt | gt | ltEq | gtEq | and | or
deriving DecidableEq, Repr

/-- `UnaryOpKind`. -/
inductive UnaryOpKind
  | neg | not
deriving DecidableEq, Repr

mutual

/-- `Stmt`. A float literal is kept as its bit pattern. -/
inductive Stmt
  | «let» (name : String) (value : Expr) (line : Nat)
  | assign (name : String) (value : Expr) (line : Nat)
  | indexAssign (name : String) (index value : Expr) (line : Nat)
  | «return» (value : Expr) (line : Nat)
  | «if» (condition : Expr) (thenBody elseBody : List Stmt) (line : Nat)
  | «while» (condition : Expr) (body : List Stmt) (line : Nat)
  | «for» (var : String) (iter : Expr) (body : List Stmt) (line : Nat)
  | fnDef (name : String) (params : List String) (body : List Stmt) (line : Nat)
  | «break» (line : Nat)
  | «continue» (line : Nat)
  | «import» (path : String) (line : Nat)
  | tryCatch (tryBody : List Stmt) (var : String) (catchBody : List Stmt) (line : Nat)
  | exprStmt (expr : Expr) (line : Nat)

/-- `Expr`. -/
inductive Expr
  | int (n : Int)
  | float (bits : UInt64)
  | str (s : String)
  | bool (b : Bool)
  | null
  | list (items : List Expr)
  | dict (pairs : List (Expr × Expr))
  | ident (name : String)
  | binOp (left : Expr) (op : BinOpKind) (right : Expr)
  | unaryOp (op : UnaryOpKind) (expr : Expr)
  | call (callee : Expr) (args : List Expr)
  | lambda (params : List String) (body : List Stmt)
  | index (object index : Expr)
  | fStr (parts : List FStrExprPart)

/-- `FStrExprPart`. -/
inductive FStrExprPart
  | literal (s : String)
  | expr (e : Expr)

end

/-- `Block`. -/
abbrev Block := List Stmt

/-- `Program`. -/
abbrev Program := List Stmt

namespace Stmt

/-- `line`. -/
def line : Stmt → Nat
  | .«let» _ _ line | .assign _ _ line | .indexAssign _ _ _ line | .«return» _ line
  | .«if» _ _ _ line | .«while» _ _ line | .«for» _ _ _ line | .fnDef _ _ _ line
  | .«break» line | .«continue» line | .«import» _ line | .tryCatch _ _ _ line
  | .exprStmt _ line => line

/-- `stmt_value_expr`. -/
def valueExpr : Stmt → Option Expr
  | .exprStmt e _ | .«let» _ e _ | .assign _ e _ | .«return» e _ => some e
  | _ => none

/-- `stmt_slot_expr`: the expression of a statement in a slot. -/
def slotExpr (s : Stmt) (slot : Nat) : Option Expr :=
  match s, slot with
  | .«if» condition _ _ _, 0 => some condition
  | .«while» condition _ _, 0 => some condition
  | .«for» _ iter _ _, 0 => some iter
  | .indexAssign _ index _ _, 0 => some index
  | .indexAssign _ _ value _, 1 => some value
  | s, 0 => s.valueExpr
  | _, _ => none

end Stmt

namespace Expr

mutual

/-- `contains_call`: a call anywhere but in the body of a lambda. -/
def containsCall : Expr → Bool
  | .call _ _ => true
  | .list items => anyContainsCall items
  | .dict pairs => pairsContainCall pairs
  | .binOp left _ right => containsCall left || containsCall right
  | .unaryOp _ e => containsCall e
  | .index object idx => containsCall object || containsCall idx
  | .fStr parts => partsContainCall parts
  | _ => false

def anyContainsCall : List Expr → Bool
  | [] => false
  | e :: es => containsCall e || anyContainsCall es

def pairsContainCall : List (Expr × Expr) → Bool
  | [] => false
  | (k, v) :: rest => (containsCall k || containsCall v) || pairsContainCall rest

def partsContainCall : List FStrExprPart → Bool
  | [] => false
  | .literal _ :: rest => partsContainCall rest
  | .expr e :: rest => containsCall e || partsContainCall rest

end

/-- `is_side_effect_free`. -/
def isSideEffectFree : Expr → Bool
  | .int _ | .float _ | .str _ | .bool _ | .null | .ident _ => true
  | .binOp left _ right => isSideEffectFree left && isSideEffectFree right
  | .unaryOp _ e => isSideEffectFree e
  | .index object idx => isSideEffectFree object && isSideEffectFree idx
  | .call .. | .lambda .. | .list _ | .dict _ | .fStr _ => false

/-- `expr_child`: of a call 0 is the callee, of a dict `2 i` is the key of entry
`i` and `2 i + 1` its value, of an f-string the position of the part. -/
def child : Expr → Nat → Option Expr
  | .call callee _, 0 => some callee
  | .call _ args, i + 1 => args[i]?
  | .binOp left _ _, 0 => some left
  | .binOp _ _ right, 1 => some right
  | .unaryOp _ e, 0 => some e
  | .index object _, 0 => some object
  | .index _ idx, 1 => some idx
  | .list items, i => items[i]?
  | .dict pairs, i => pairs[i / 2]?.map fun p => if i % 2 = 0 then p.1 else p.2
  | .fStr parts, i =>
    match parts[i]? with
    | some (.expr e) => some e
    | _ => none
  | _, _ => none

/-- The node at the end of a path of child positions. -/
def atPath (e : Expr) (path : List Nat) : Option Expr :=
  path.foldl (fun node i => node.bind (·.child i)) (some e)

/-- `matches!(expr, Expr::Ident(_))`. -/
def isIdent : Expr → Bool
  | .ident _ => true
  | _ => false

end Expr

/-- `expr_at`. The source expects the statement, the slot and every child to exist. -/
def exprAt (owner : Block) (stmtIndex slot : Nat) (path : List Nat) : Option Expr := do
  let stmt ← owner[stmtIndex]?
  let root ← stmt.slotExpr slot
  root.atPath path

theorem exprAt_append {owner : Block} {stmtIndex slot : Nat} {path : List Nat} {e : Expr}
    (h : exprAt owner stmtIndex slot path = some e) (i : Nat) :
    exprAt owner stmtIndex slot (path ++ [i]) = e.child i := by
  simp only [exprAt, Option.bind_eq_bind, Option.bind_eq_some_iff] at h ⊢
  obtain ⟨stmt, hs, root, hr, hp⟩ := h
  simp only [hs, hr, Option.bind_some, Expr.atPath, List.foldl_append, List.foldl_cons,
    List.foldl_nil]
  simp only [Expr.atPath] at hp
  rw [hp]
  rfl

mutual

/-- `referenced_names` of a statement: every name it mentions, nested bodies
included. The set of the source is a list here. -/
def Stmt.names : Stmt → List String
  | .«let» name value _ | .assign name value _ => name :: value.names
  | .indexAssign name index value _ => name :: (index.names ++ value.names)
  | .«return» e _ | .exprStmt e _ => e.names
  | .«if» condition thenBody elseBody _ =>
    condition.names ++ stmtsNames thenBody ++ stmtsNames elseBody
  | .«while» condition body _ => condition.names ++ stmtsNames body
  | .«for» var iter body _ => var :: (iter.names ++ stmtsNames body)
  | .fnDef name params body _ => name :: (params ++ stmtsNames body)
  | .tryCatch tryBody var catchBody _ => var :: (stmtsNames tryBody ++ stmtsNames catchBody)
  | .«break» _ | .«continue» _ | .«import» _ _ => []

def Expr.names : Expr → List String
  | .ident name => [name]
  | .list items => exprsNames items
  | .dict pairs => pairsNames pairs
  | .binOp left _ right => left.names ++ right.names
  | .unaryOp _ e => e.names
  | .call callee args => callee.names ++ exprsNames args
  | .lambda params body => params ++ stmtsNames body
  | .index object idx => object.names ++ idx.names
  | .fStr parts => partsNames parts
  | .int _ | .float _ | .str _ | .bool _ | .null => []

def stmtsNames : List Stmt → List String
  | [] => []
  | s :: rest => s.names ++ stmtsNames rest

def exprsNames : List Expr → List String
  | [] => []
  | e :: rest => e.names ++ exprsNames rest

def pairsNames : List (Expr × Expr) → List String
  | [] => []
  | (k, v) :: rest => k.names ++ v.names ++ pairsNames rest

def partsNames : List FStrExprPart → List String
  | [] => []
  | .literal _ :: rest => partsNames rest
  | .expr e :: rest => e.names ++ partsNames rest

end

/-- `referenced_names`. -/
def referencedNames (body : Block) : List String := (stmtsNames body).dedup

/-- `MAX_AST_DEPTH`. -/
def maxAstDepth : Nat := 256

mutual

/-- `excessive_depth_line`, from a statement at a depth: the line of the first node
in source order that lies too deep. The work list of the source visits the nodes in
this order. -/
def Stmt.excessiveDepthLine (depth : Nat) (s : Stmt) : Option Nat :=
  if maxAstDepth < depth then some s.line
  else
    match s with
    | .«let» _ value line | .assign _ value line | .«return» value line | .exprStmt value line =>
      value.excessiveDepthLine (depth + 1) line
    | .indexAssign _ idx value line =>
      idx.excessiveDepthLine (depth + 1) line <|> value.excessiveDepthLine (depth + 1) line
    | .«if» condition thenBody elseBody line =>
      condition.excessiveDepthLine (depth + 1) line <|> stmtsExcessiveDepthLine (depth + 1) thenBody
        <|> stmtsExcessiveDepthLine (depth + 1) elseBody
    | .«while» condition body line =>
      condition.excessiveDepthLine (depth + 1) line <|> stmtsExcessiveDepthLine (depth + 1) body
    | .«for» _ iter body line =>
      iter.excessiveDepthLine (depth + 1) line <|> stmtsExcessiveDepthLine (depth + 1) body
    | .fnDef _ _ body _ => stmtsExcessiveDepthLine (depth + 1) body
    | .tryCatch tryBody _ catchBody _ =>
      stmtsExcessiveDepthLine (depth + 1) tryBody <|> stmtsExcessiveDepthLine (depth + 1) catchBody
    | .«break» _ | .«continue» _ | .«import» _ _ => none

def Expr.excessiveDepthLine (depth line : Nat) (e : Expr) : Option Nat :=
  if maxAstDepth < depth then some line
  else
    match e with
    | .list items => exprsExcessiveDepthLine (depth + 1) line items
    | .dict pairs => pairsExcessiveDepthLine (depth + 1) line pairs
    | .binOp left _ right =>
      left.excessiveDepthLine (depth + 1) line <|> right.excessiveDepthLine (depth + 1) line
    | .unaryOp _ e => e.excessiveDepthLine (depth + 1) line
    | .call callee args =>
      callee.excessiveDepthLine (depth + 1) line <|> exprsExcessiveDepthLine (depth + 1) line args
    | .lambda _ body => stmtsExcessiveDepthLine (depth + 1) body
    | .index object idx =>
      object.excessiveDepthLine (depth + 1) line <|> idx.excessiveDepthLine (depth + 1) line
    | .fStr parts => partsExcessiveDepthLine (depth + 1) line parts
    | .int _ | .float _ | .str _ | .bool _ | .null | .ident _ => none

def stmtsExcessiveDepthLine (depth : Nat) : List Stmt → Option Nat
  | [] => none
  | s :: rest => s.excessiveDepthLine depth <|> stmtsExcessiveDepthLine depth rest

def exprsExcessiveDepthLine (depth line : Nat) : List Expr → Option Nat
  | [] => none
  | e :: rest => e.excessiveDepthLine depth line <|> exprsExcessiveDepthLine depth line rest

def pairsExcessiveDepthLine (depth line : Nat) : List (Expr × Expr) → Option Nat
  | [] => none
  | (k, v) :: rest =>
    k.excessiveDepthLine depth line <|> v.excessiveDepthLine depth line
      <|> pairsExcessiveDepthLine depth line rest

def partsExcessiveDepthLine (depth line : Nat) : List FStrExprPart → Option Nat
  | [] => none
  | .literal _ :: rest => partsExcessiveDepthLine depth line rest
  | .expr e :: rest =>
    e.excessiveDepthLine depth line <|> partsExcessiveDepthLine depth line rest

end

end Tsumugi
