import Tsumugi.Lang.Ast

/-!
# The height of a syntax tree

`excessive_depth_line` asks whether a node lies too deep. Here is the height that it
compares with the limit: a statement or an expression is one higher than what it holds.

Result: `excessiveDepthLine_eq_none`: no node lies too deep exactly if the height fits.
-/

namespace Tsumugi

mutual

/-- The height of a statement. -/
def Stmt.height : Stmt → Nat
  | .«let» _ value _ | .assign _ value _ | .«return» value _ | .exprStmt value _ => value.height + 1
  | .indexAssign _ idx value _ => max idx.height value.height + 1
  | .«if» condition thenBody elseBody _ =>
    max condition.height (max (stmtsHeight thenBody) (stmtsHeight elseBody)) + 1
  | .«while» condition body _ => max condition.height (stmtsHeight body) + 1
  | .«for» _ iter body _ => max iter.height (stmtsHeight body) + 1
  | .fnDef _ _ body _ => stmtsHeight body + 1
  | .tryCatch tryBody _ catchBody _ => max (stmtsHeight tryBody) (stmtsHeight catchBody) + 1
  | .«break» _ | .«continue» _ | .«import» _ _ => 1

/-- The height of an expression. -/
def Expr.height : Expr → Nat
  | .list items => exprsHeight items + 1
  | .dict pairs => pairsHeight pairs + 1
  | .binOp left _ right => max left.height right.height + 1
  | .unaryOp _ e => e.height + 1
  | .call callee args => max callee.height (exprsHeight args) + 1
  | .lambda _ body => stmtsHeight body + 1
  | .index object idx => max object.height idx.height + 1
  | .fStr parts => partsHeight parts + 1
  | .int _ | .float _ | .str _ | .bool _ | .null | .ident _ => 1

def stmtsHeight : List Stmt → Nat
  | [] => 0
  | s :: rest => max s.height (stmtsHeight rest)

def exprsHeight : List Expr → Nat
  | [] => 0
  | e :: rest => max e.height (exprsHeight rest)

def pairsHeight : List (Expr × Expr) → Nat
  | [] => 0
  | (k, v) :: rest => max (max k.height v.height) (pairsHeight rest)

def partsHeight : List FStrExprPart → Nat
  | [] => 0
  | .literal _ :: rest => partsHeight rest
  | .expr e :: rest => max e.height (partsHeight rest)

end

theorem orElse_eq_none {α : Type} {a b : Option α} : (a <|> b) = none ↔ a = none ∧ b = none := by
  cases a <;> simp

theorem add_max_le {k a b n : Nat} : k + max a b ≤ n ↔ k + a ≤ n ∧ k + b ≤ n := by omega

/-- A node at a depth, over what it holds. -/
theorem node_eq_none {depth line height : Nat} {below : Option Nat}
    (hbelow : depth + 1 ≤ maxAstDepth + 1 →
      (below = none ↔ depth + 1 + height ≤ maxAstDepth + 1)) :
    (if maxAstDepth < depth then some line else below) = none ↔
      depth + (height + 1) ≤ maxAstDepth + 1 := by
  split
  · simp only [reduceCtorEq, false_iff]
    omega
  · rw [hbelow (by omega)]
    omega

mutual

theorem Stmt.excessiveDepthLine_eq_none {depth : Nat} :
    ∀ s : Stmt, s.excessiveDepthLine depth = none ↔ depth + s.height ≤ maxAstDepth + 1
  | .«let» _ value _ | .assign _ value _ | .«return» value _ | .exprStmt value _ => by
    rw [Stmt.excessiveDepthLine, Stmt.height]
    exact node_eq_none fun _ => value.excessiveDepthLine_eq_none
  | .indexAssign _ idx value _ => by
    rw [Stmt.excessiveDepthLine, Stmt.height]
    refine node_eq_none fun _ => ?_
    rw [orElse_eq_none, add_max_le, idx.excessiveDepthLine_eq_none,
      value.excessiveDepthLine_eq_none]
  | .«if» condition thenBody elseBody _ => by
    rw [Stmt.excessiveDepthLine, Stmt.height]
    refine node_eq_none fun h => ?_
    rw [orElse_eq_none, orElse_eq_none, add_max_le, add_max_le,
      condition.excessiveDepthLine_eq_none, stmtsExcessiveDepthLine_eq_none h,
      stmtsExcessiveDepthLine_eq_none h]
  | .«while» condition body _ => by
    rw [Stmt.excessiveDepthLine, Stmt.height]
    refine node_eq_none fun h => ?_
    rw [orElse_eq_none, add_max_le, condition.excessiveDepthLine_eq_none,
      stmtsExcessiveDepthLine_eq_none h]
  | .«for» _ iter body _ => by
    rw [Stmt.excessiveDepthLine, Stmt.height]
    refine node_eq_none fun h => ?_
    rw [orElse_eq_none, add_max_le, iter.excessiveDepthLine_eq_none,
      stmtsExcessiveDepthLine_eq_none h]
  | .fnDef _ _ body _ => by
    rw [Stmt.excessiveDepthLine, Stmt.height]
    exact node_eq_none fun h => stmtsExcessiveDepthLine_eq_none h body
  | .tryCatch tryBody _ catchBody _ => by
    rw [Stmt.excessiveDepthLine, Stmt.height]
    refine node_eq_none fun h => ?_
    rw [orElse_eq_none, add_max_le, stmtsExcessiveDepthLine_eq_none h,
      stmtsExcessiveDepthLine_eq_none h]
  | .«break» _ | .«continue» _ | .«import» _ _ => by
    rw [Stmt.excessiveDepthLine, Stmt.height]
    exact node_eq_none fun h => by simpa using h

theorem Expr.excessiveDepthLine_eq_none {depth line : Nat} :
    ∀ e : Expr, e.excessiveDepthLine depth line = none ↔ depth + e.height ≤ maxAstDepth + 1
  | .list items => by
    rw [Expr.excessiveDepthLine, Expr.height]
    exact node_eq_none fun h => exprsExcessiveDepthLine_eq_none h items
  | .dict pairs => by
    rw [Expr.excessiveDepthLine, Expr.height]
    exact node_eq_none fun h => pairsExcessiveDepthLine_eq_none h pairs
  | .binOp left _ right => by
    rw [Expr.excessiveDepthLine, Expr.height]
    refine node_eq_none fun _ => ?_
    rw [orElse_eq_none, add_max_le, left.excessiveDepthLine_eq_none,
      right.excessiveDepthLine_eq_none]
  | .unaryOp _ e => by
    rw [Expr.excessiveDepthLine, Expr.height]
    exact node_eq_none fun _ => e.excessiveDepthLine_eq_none
  | .call callee args => by
    rw [Expr.excessiveDepthLine, Expr.height]
    refine node_eq_none fun h => ?_
    rw [orElse_eq_none, add_max_le, callee.excessiveDepthLine_eq_none,
      exprsExcessiveDepthLine_eq_none h]
  | .lambda _ body => by
    rw [Expr.excessiveDepthLine, Expr.height]
    exact node_eq_none fun h => stmtsExcessiveDepthLine_eq_none h body
  | .index object idx => by
    rw [Expr.excessiveDepthLine, Expr.height]
    refine node_eq_none fun _ => ?_
    rw [orElse_eq_none, add_max_le, object.excessiveDepthLine_eq_none,
      idx.excessiveDepthLine_eq_none]
  | .fStr parts => by
    rw [Expr.excessiveDepthLine, Expr.height]
    exact node_eq_none fun h => partsExcessiveDepthLine_eq_none h parts
  | .int _ | .float _ | .str _ | .bool _ | .null | .ident _ => by
    rw [Expr.excessiveDepthLine, Expr.height]
    exact node_eq_none fun h => by simpa using h

theorem stmtsExcessiveDepthLine_eq_none {depth : Nat} (h : depth ≤ maxAstDepth + 1) :
    ∀ l : List Stmt,
      stmtsExcessiveDepthLine depth l = none ↔ depth + stmtsHeight l ≤ maxAstDepth + 1
  | [] => by simpa [stmtsExcessiveDepthLine, stmtsHeight] using h
  | s :: rest => by
    rw [stmtsExcessiveDepthLine, stmtsHeight, orElse_eq_none, add_max_le,
      s.excessiveDepthLine_eq_none, stmtsExcessiveDepthLine_eq_none h rest]

theorem exprsExcessiveDepthLine_eq_none {depth line : Nat} (h : depth ≤ maxAstDepth + 1) :
    ∀ l : List Expr,
      exprsExcessiveDepthLine depth line l = none ↔ depth + exprsHeight l ≤ maxAstDepth + 1
  | [] => by simpa [exprsExcessiveDepthLine, exprsHeight] using h
  | e :: rest => by
    rw [exprsExcessiveDepthLine, exprsHeight, orElse_eq_none, add_max_le,
      e.excessiveDepthLine_eq_none, exprsExcessiveDepthLine_eq_none h rest]

theorem pairsExcessiveDepthLine_eq_none {depth line : Nat} (h : depth ≤ maxAstDepth + 1) :
    ∀ l : List (Expr × Expr),
      pairsExcessiveDepthLine depth line l = none ↔ depth + pairsHeight l ≤ maxAstDepth + 1
  | [] => by simpa [pairsExcessiveDepthLine, pairsHeight] using h
  | (k, v) :: rest => by
    rw [pairsExcessiveDepthLine, pairsHeight, orElse_eq_none, orElse_eq_none, add_max_le,
      add_max_le, k.excessiveDepthLine_eq_none, v.excessiveDepthLine_eq_none,
      pairsExcessiveDepthLine_eq_none h rest, and_assoc]

theorem partsExcessiveDepthLine_eq_none {depth line : Nat} (h : depth ≤ maxAstDepth + 1) :
    ∀ l : List FStrExprPart,
      partsExcessiveDepthLine depth line l = none ↔ depth + partsHeight l ≤ maxAstDepth + 1
  | [] => by simpa [partsExcessiveDepthLine, partsHeight] using h
  | .literal _ :: rest => by
    rw [partsExcessiveDepthLine, partsHeight, partsExcessiveDepthLine_eq_none h rest]
  | .expr e :: rest => by
    rw [partsExcessiveDepthLine, partsHeight, orElse_eq_none, add_max_le,
      e.excessiveDepthLine_eq_none, partsExcessiveDepthLine_eq_none h rest]

end

end Tsumugi
