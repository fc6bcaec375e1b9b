import Tsumugi.Lang.Ast
import Tsumugi.Lib.Word

/-!
# What the code of a closure weighs (`ast.rs`)

Blocks are shared, and the charge for the code of a program goes by their addresses: one
unit for each body of a function or a lambda, and one for what no body owns. Here the
syntax carries the address of each block. Two walks charge the units and list the units
inside a body; the work list that adds up the whole program is their reference.
-/

namespace Tsumugi.Code

open Word

/-! ## Syntax with addresses -/

mutual

/-- `Stmt`. -/
inductive Stmt
  | «let» (name : String) (value : Expr) (line : Nat)
  | assign (name : String) (value : Expr) (line : Nat)
  | indexAssign (name : String) (index value : Expr) (line : Nat)
  | «return» (value : Expr) (line : Nat)
  | «if» (condition : Expr) (thenBody elseBody : Block) (line : Nat)
  | «while» (condition : Expr) (body : Block) (line : Nat)
  | «for» (var : String) (iter : Expr) (body : Block) (line : Nat)
  | fnDef (name : String) (params : List String) (body : Block) (line : Nat)
  | «break» (line : Nat)
  | «continue» (line : Nat)
  | «import» (path : String) (line : Nat)
  | tryCatch (tryBody : Block) (var : String) (catchBody : Block) (line : Nat)
  | exprStmt (expr : Expr) (line : Nat)

/-- `Expr`. -/
inductive Expr
  | int (n : Int)
  | float (bits : UInt64)
  | str (s : String)
  | bool (b : Bool)
  | null
  | list (items : List Expr)
  | dict (pairs : List (Expr × Expr))
  | ident (name : String)
  | binOp (left : Expr) (op : BinOpKind) (right : Expr)
  | unaryOp (op : UnaryOpKind) (expr : Expr)
  | call (callee : Expr) (args : List Expr)
  | lambda (params : List String) (body : Block)
  | index (object index : Expr)
  | fStr (parts : List FStrExprPart)

/-- `FStrExprPart`. -/
inductive FStrExprPart
  | literal (s : String)
  | expr (e : Expr)

/-- `Block`: the address and what is there. -/
inductive Block
  | mk (ptr : Nat) (stmts : List Stmt)

end

/-- `Program`. -/
abbrev Program := List Stmt

namespace Block

/-- `Rc::as_ptr`. -/
def ptr : Block → Nat
  | mk ptr _ => ptr

def stmts : Block → List Stmt
  | mk _ stmts => stmts

end Block

/-! ## Sizes -/

/-- `heap_size::AST_ROOT`. -/
def astRoot : Nat := 64

/-- `heap_size::ast_node`. -/
def astNode (ownedBytes : Nat) : Nat := satAdd 64 ownedBytes

/-- `owned`, for each string in turn. -/
def owned (strings : List String) : Nat :=
  strings.foldl (fun bytes s => satAdd bytes s.utf8ByteSize) 0

/-- The strings of an f-string that its node owns. -/
def literals (parts : List FStrExprPart) : List String :=
  parts.filterMap fun
    | .literal s => some s
    | .expr _ => none

/-! ## The whole program at once -/

/-- `AstNode`. -/
inductive AstNode
  | stmt (s : Stmt)
  | expr (e : Expr)

namespace AstNode

/-- The expression of a part that is not literal. -/
def interpolated : FStrExprPart → Option AstNode
  | .literal _ => none
  | .expr child => some (expr child)

/-- The bytes a node owns, and what it puts on the work list, in that order. -/
def visit : AstNode → Nat × List AstNode
  | stmt (.«let» name value _) | stmt (.assign name value _) => (owned [name], [expr value])
  | stmt (.indexAssign name index value _) => (owned [name], [expr index, expr value])
  | stmt (.«return» value _) | stmt (.exprStmt value _) => (0, [expr value])
  | stmt (.«if» condition thenBody elseBody _) =>
    (0, [expr condition] ++ thenBody.stmts.map stmt ++ elseBody.stmts.map stmt)
  | stmt (.«while» condition body _) => (0, [expr condition] ++ body.stmts.map stmt)
  | stmt (.«for» var iter body _) => (owned [var], [expr iter] ++ body.stmts.map stmt)
  | stmt (.fnDef name params body _) => (owned (name :: params), body.stmts.map stmt)
  | stmt (.«import» path _) => (owned [path], [])
  | stmt (.tryCatch tryBody var catchBody _) =>
    (owned [var], tryBody.stmts.map stmt ++ catchBody.stmts.map stmt)
  | stmt (.«break» _) | stmt (.«continue» _) => (0, [])
  | expr (.str s) => (owned [s], [])
  | expr (.ident name) => (owned [name], [])
  | expr (.list items) => (0, items.map expr)
  | expr (.dict pairs) => (0, pairs.flatMap fun p => [expr p.1, expr p.2])
  | expr (.binOp left _ right) => (0, [expr left, expr right])
  | expr (.unaryOp _ e) => (0, [expr e])
  | expr (.call callee args) => (0, [expr callee] ++ args.map expr)
  | expr (.lambda params body) => (owned params, body.stmts.map stmt)
  | expr (.index object index) => (0, [expr object, expr index])
  | expr (.fStr parts) =>
    (owned (literals parts), parts.filterMap interpolated)
  | expr (.int _) | expr (.float _) | expr (.bool _) | expr .null => (0, [])

/-- The syntax that is still to be walked. -/
noncomputable def size : AstNode → Nat
  | stmt s => sizeOf s
  | expr e => sizeOf e

theorem sum_stmts_lt (b : Block) : ((b.stmts.map stmt).map size).sum < sizeOf b := by
  obtain ⟨ptr, stmts⟩ := b
  have hle : ((stmts.map stmt).map size).sum ≤ sizeOf stmts := by
    induction stmts with
    | nil => exact Nat.zero_le _
    | cons s stmts ih =>
      simp only [List.map_cons, List.sum_cons, size, List.cons.sizeOf_spec]
      omega
  simp only [Block.stmts, Block.mk.sizeOf_spec]
  omega

theorem sum_exprs_lt (es : List Expr) : ((es.map expr).map size).sum < sizeOf es := by
  induction es with
  | nil => simp
  | cons e es ih =>
    simp only [List.map_cons, List.sum_cons, size, List.cons.sizeOf_spec]
    omega

theorem sum_pairs_lt (pairs : List (Expr × Expr)) :
    ((pairs.flatMap fun p => [expr p.1, expr p.2]).map size).sum < sizeOf pairs := by
  induction pairs with
  | nil => simp
  | cons p pairs ih =>
    obtain ⟨k, v⟩ := p
    simp only [List.flatMap_cons, List.map_append, List.map_cons, List.map_nil, List.sum_append,
      List.sum_cons, List.sum_nil, size, List.cons.sizeOf_spec, Prod.mk.sizeOf_spec]
    omega

theorem sum_parts_lt (parts : List FStrExprPart) :
    ((parts.filterMap interpolated).map size).sum < sizeOf parts := by
  induction parts with
  | nil => simp
  | cons part parts ih =>
    cases part <;>
      simp only [List.filterMap_cons, interpolated, List.map_cons, List.sum_cons, size,
        List.cons.sizeOf_spec, FStrExprPart.expr.sizeOf_spec] <;> omega

/-- A node is larger than what it puts on the work list. -/
theorem sum_visit_lt (node : AstNode) : (node.visit.2.map size).sum < node.size := by
  cases node with
  | stmt s =>
    cases s with
    | «if» condition thenBody elseBody line =>
      have hthen := sum_stmts_lt thenBody
      have helse := sum_stmts_lt elseBody
      simp only [visit, List.map_append, List.sum_append, List.map_cons, List.map_nil,
        List.sum_cons, List.sum_nil, size, Stmt.if.sizeOf_spec]
      omega
    | «while» condition body line =>
      have hbody := sum_stmts_lt body
      simp only [visit, List.map_append, List.sum_append, List.map_cons, List.map_nil,
        List.sum_cons, List.sum_nil, size, Stmt.while.sizeOf_spec]
      omega
    | «for» var iter body line =>
      have hbody := sum_stmts_lt body
      simp only [visit, List.map_append, List.sum_append, List.map_cons, List.map_nil,
        List.sum_cons, List.sum_nil, size, Stmt.for.sizeOf_spec]
      omega
    | fnDef name params body line =>
      have hbody := sum_stmts_lt body
      simp only [visit, size, Stmt.fnDef.sizeOf_spec]
      omega
    | tryCatch tryBody var catchBody line =>
      have htry := sum_stmts_lt tryBody
      have hcatch := sum_stmts_lt catchBody
      simp only [visit, List.map_append, List.sum_append, size, Stmt.tryCatch.sizeOf_spec]
      omega
    | _ =>
      simp only [visit, List.map_cons, List.map_nil, List.sum_cons, List.sum_nil, size,
        Stmt.let.sizeOf_spec, Stmt.assign.sizeOf_spec, Stmt.indexAssign.sizeOf_spec,
        Stmt.return.sizeOf_spec, Stmt.break.sizeOf_spec, Stmt.continue.sizeOf_spec,
        Stmt.import.sizeOf_spec, Stmt.exprStmt.sizeOf_spec]
      omega
  | expr e =>
    cases e with
    | list items =>
      have hitems := sum_exprs_lt items
      simp only [visit, size, Expr.list.sizeOf_spec]
      omega
    | dict pairs =>
      have hpairs := sum_pairs_lt pairs
      simp only [visit, size, Expr.dict.sizeOf_spec]
      omega
    | call callee args =>
      have hargs := sum_exprs_lt args
      simp only [visit, List.map_append, List.sum_append, List.map_cons, List.map_nil,
        List.sum_cons, List.sum_nil, size, Expr.call.sizeOf_spec]
      omega
    | lambda params body =>
      have hbody := sum_stmts_lt body
      simp only [visit, size, Expr.lambda.sizeOf_spec]
      omega
    | fStr parts =>
      have hparts := sum_parts_lt parts
      simp only [visit, size, Expr.fStr.sizeOf_spec]
      omega
    | _ =>
      simp only [visit, List.map_cons, List.map_nil, List.sum_cons, List.sum_nil, size,
        Expr.int.sizeOf_spec, Expr.float.sizeOf_spec, Expr.str.sizeOf_spec,
        Expr.bool.sizeOf_spec, Expr.null.sizeOf_spec, Expr.ident.sizeOf_spec,
        Expr.unaryOp.sizeOf_spec, Expr.binOp.sizeOf_spec, Expr.index.sizeOf_spec]
      omega

end AstNode

/-- The loop of `ast_heap_size`: the node pushed last is popped first. -/
def astHeapSizeFrom (total : Nat) : List AstNode → Nat
  | [] => total
  | node :: worklist =>
    astHeapSizeFrom (satAdd total (astNode node.visit.1)) (node.visit.2.reverse ++ worklist)
termination_by worklist => (worklist.map AstNode.size).sum
decreasing_by
  have := node.sum_visit_lt
  simp only [List.map_append, List.sum_append, List.map_reverse, List.sum_reverse, List.map_cons,
    List.sum_cons]
  omega

/-- `ast_heap_size`. -/
def astHeapSize (program : Program) : Nat :=
  astHeapSizeFrom astRoot (program.map AstNode.stmt).reverse

/-! ## One unit for each body -/

/-- What a walk carries: the subtotal of the owner, the units so far and the addresses seen. -/
structure Walk where
  subtotal : Nat
  bodies : List (Block × Nat)
  seen : List Nat

namespace Walk

/-- A node of this owner. -/
def count (w : Walk) (ownedBytes : Nat) : Walk :=
  { w with subtotal := satAdd w.subtotal (astNode ownedBytes) }

/-- `record_body`: an address that is new gets a unit, with a subtotal of its own. -/
def recordBody (walkStmts : Walk → Walk) (body : Block) (w : Walk) : Walk :=
  if body.ptr ∈ w.seen then w
  else
    let inner := walkStmts { subtotal := 0, bodies := w.bodies, seen := body.ptr :: w.seen }
    { w with bodies := inner.bodies ++ [(body, inner.subtotal)], seen := inner.seen }

end Walk

mutual

/-- `walk_stmt`. -/
def walkStmt : Stmt → Walk → Walk
  | .«let» name value _, w | .assign name value _, w => (walkExpr value w).count (owned [name])
  | .indexAssign name index value _, w =>
    (walkExpr value (walkExpr index w)).count (owned [name])
  | .«return» value _, w | .exprStmt value _, w => (walkExpr value w).count 0
  | .«if» condition thenBody elseBody _, w =>
    (walkBlock elseBody (walkBlock thenBody (walkExpr condition w))).count 0
  | .«while» condition body _, w => (walkBlock body (walkExpr condition w)).count 0
  | .«for» var iter body _, w => (walkBlock body (walkExpr iter w)).count (owned [var])
  | .fnDef name params body _, w =>
    (Walk.recordBody (walkBlock body) body w).count (owned (name :: params))
  | .«import» path _, w => w.count (owned [path])
  | .tryCatch tryBody var catchBody _, w =>
    (walkBlock catchBody (walkBlock tryBody w)).count (owned [var])
  | .«break» _, w | .«continue» _, w => w.count 0

/-- `walk_expr`. -/
def walkExpr : Expr → Walk → Walk
  | .str s, w => w.count (owned [s])
  | .ident name, w => w.count (owned [name])
  | .list items, w => (walkExprs items w).count 0
  | .dict pairs, w => (walkPairs pairs w).count 0
  | .binOp left _ right, w => (walkExpr right (walkExpr left w)).count 0
  | .unaryOp _ e, w => (walkExpr e w).count 0
  | .call callee args, w => (walkExprs args (walkExpr callee w)).count 0
  | .lambda params body, w => (Walk.recordBody (walkBlock body) body w).count (owned params)
  | .index object index, w => (walkExpr index (walkExpr object w)).count 0
  | .fStr parts, w => (walkParts parts w).count (owned (literals parts))
  | .int _, w | .float _, w | .bool _, w | .null, w => w.count 0

/-- `walk_stmts`, of what is at an address. -/
def walkBlock : Block → Walk → Walk
  | .mk _ stmts, w => walkStmts stmts w

def walkStmts : List Stmt → Walk → Walk
  | [], w => w
  | s :: stmts, w => walkStmts stmts (walkStmt s w)

def walkExprs : List Expr → Walk → Walk
  | [], w => w
  | e :: es, w => walkExprs es (walkExpr e w)

def walkPairs : List (Expr × Expr) → Walk → Walk
  | [], w => w
  | (key, value) :: pairs, w => walkPairs pairs (walkExpr value (walkExpr key w))

def walkParts : List FStrExprPart → Walk → Walk
  | [], w => w
  | .literal _ :: parts, w => walkParts parts w
  | .expr child :: parts, w => walkParts parts (walkExpr child w)

end

/-- `ast_closure_body_sizes`: the bytes that no body owns, and the units. -/
def astClosureBodySizes (program : Program) : Nat × List (Block × Nat) :=
  let w := walkStmts program { subtotal := astRoot, bodies := [], seen := [] }
  (w.subtotal, w.bodies)

/-! ## The units inside a body -/

/-- The addresses found, and those seen. -/
structure Collected where
  ptrs : List Nat
  seen : List Nat

/-- `add_body`. -/
def Collected.addBody (collectStmts : Collected → Collected) (body : Block) (c : Collected) :
    Collected :=
  if body.ptr ∈ c.seen then c
  else collectStmts { ptrs := c.ptrs ++ [body.ptr], seen := body.ptr :: c.seen }

mutual

/-- `collect_stmt`. -/
def collectStmt : Stmt → Collected → Collected
  | .«let» _ value _, c | .assign _ value _, c => collectExpr value c
  | .indexAssign _ index value _, c => collectExpr value (collectExpr index c)
  | .«return» value _, c | .exprStmt value _, c => collectExpr value c
  | .«if» condition thenBody elseBody _, c =>
    collectBlock elseBody (collectBlock thenBody (collectExpr condition c))
  | .«while» condition body _, c => collectBlock body (collectExpr condition c)
  | .«for» _ iter body _, c => collectBlock body (collectExpr iter c)
  | .fnDef _ _ body _, c => Collected.addBody (collectBlock body) body c
  | .tryCatch tryBody _ catchBody _, c => collectBlock catchBody (collectBlock tryBody c)
  | .«break» _, c | .«continue» _, c | .«import» _ _, c => c

/-- `collect_expr`. -/
def collectExpr : Expr → Collected → Collected
  | .list items, c => collectExprs items c
  | .dict pairs, c => collectPairs pairs c
  | .binOp left _ right, c => collectExpr right (collectExpr left c)
  | .unaryOp _ e, c => collectExpr e c
  | .call callee args, c => collectExprs args (collectExpr callee c)
  | .lambda _ body, c => Collected.addBody (collectBlock body) body c
  | .index object index, c => collectExpr index (collectExpr object c)
  | .fStr parts, c => collectParts parts c
  | .int _, c | .float _, c | .str _, c | .bool _, c | .null, c | .ident _, c => c

/-- `collect_stmts`, of what is at an address. -/
def collectBlock : Block → Collected → Collected
  | .mk _ stmts, c => collectStmts stmts c

def collectStmts : List Stmt → Collected → Collected
  | [], c => c
  | s :: stmts, c => collectStmts stmts (collectStmt s c)

def collectExprs : List Expr → Collected → Collected
  | [], c => c
  | e :: es, c => collectExprs es (collectExpr e c)

def collectPairs : List (Expr × Expr) → Collected → Collected
  | [], c => c
  | (key, value) :: pairs, c => collectPairs pairs (collectExpr value (collectExpr key c))

def collectParts : List FStrExprPart → Collected → Collected
  | [], c => c
  | .literal _ :: parts, c => collectParts parts c
  | .expr child :: parts, c => collectParts parts (collectExpr child c)

end

/-- `closure_body_subtree_ptrs`. -/
def closureBodySubtreePtrs (body : Block) : List Nat :=
  (Collected.addBody (collectBlock body) body { ptrs := [], seen := [] }).ptrs

end Tsumugi.Code
