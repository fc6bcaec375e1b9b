import Mathlib.Data.List.Induction
import Tsumugi.Lang.Ast

/-!
# The float literals of a program

`Admits F` says that the float literals of a part of a program have a property. The parts
that an evaluation reaches inherit it: the statements of a block, the expression in a slot,
the child of an expression, and the node at the end of a path (`admits_exprAt`).
-/

namespace Tsumugi

mutual

/-- The float literals of a statement. -/
def Stmt.floats : Stmt → List UInt64
  | .«let» _ value _ | .assign _ value _ => value.floats
  | .indexAssign _ index value _ => index.floats ++ value.floats
  | .«return» e _ | .exprStmt e _ => e.floats
  | .«if» condition thenBody elseBody _ =>
    condition.floats ++ (stmtsFloats thenBody ++ stmtsFloats elseBody)
  | .«while» condition body _ => condition.floats ++ stmtsFloats body
  | .«for» _ iter body _ => iter.floats ++ stmtsFloats body
  | .fnDef _ _ body _ => stmtsFloats body
  | .tryCatch tryBody _ catchBody _ => stmtsFloats tryBody ++ stmtsFloats catchBody
  | .«break» _ | .«continue» _ | .«import» _ _ => []

def Expr.floats : Expr → List UInt64
  | .float bits => [bits]
  | .list items => exprsFloats items
  | .dict pairs => pairsFloats pairs
  | .binOp left _ right => left.floats ++ right.floats
  | .unaryOp _ e => e.floats
  | .call callee args => callee.floats ++ exprsFloats args
  | .lambda _ body => stmtsFloats body
  | .index object idx => object.floats ++ idx.floats
  | .fStr parts => partsFloats parts
  | .int _ | .str _ | .bool _ | .null | .ident _ => []

def stmtsFloats : List Stmt → List UInt64
  | [] => []
  | s :: rest => s.floats ++ stmtsFloats rest

def exprsFloats : List Expr → List UInt64
  | [] => []
  | e :: rest => e.floats ++ exprsFloats rest

def pairsFloats : List (Expr × Expr) → List UInt64
  | [] => []
  | (k, v) :: rest => k.floats ++ v.floats ++ pairsFloats rest

def partsFloats : List FStrExprPart → List UInt64
  | [] => []
  | .literal _ :: rest => partsFloats rest
  | .expr e :: rest => e.floats ++ partsFloats rest

end

/-- Every literal has a property. -/
def Admits (F : UInt64 → Prop) (floats : List UInt64) : Prop := ∀ bits ∈ floats, F bits

section Admits

variable {F : UInt64 → Prop}

theorem admits_nil : Admits F [] := List.forall_mem_nil F

theorem admits_append {xs ys : List UInt64} : Admits F (xs ++ ys) ↔ Admits F xs ∧ Admits F ys :=
  List.forall_mem_append

theorem admits_stmts {body : List Stmt} :
    Admits F (stmtsFloats body) ↔ ∀ s ∈ body, Admits F s.floats := by
  induction body with
  | nil => exact ⟨fun _ => nofun, fun _ => admits_nil⟩
  | cons s rest ih => rw [stmtsFloats, admits_append, List.forall_mem_cons, ih]

theorem admits_exprs {es : List Expr} :
    Admits F (exprsFloats es) ↔ ∀ e ∈ es, Admits F e.floats := by
  induction es with
  | nil => exact ⟨fun _ => nofun, fun _ => admits_nil⟩
  | cons e rest ih => rw [exprsFloats, admits_append, List.forall_mem_cons, ih]

theorem admits_pairs {pairs : List (Expr × Expr)} :
    Admits F (pairsFloats pairs) ↔ ∀ p ∈ pairs, Admits F p.1.floats ∧ Admits F p.2.floats := by
  induction pairs with
  | nil => exact ⟨fun _ => nofun, fun _ => admits_nil⟩
  | cons p rest ih =>
    obtain ⟨k, v⟩ := p
    rw [pairsFloats, admits_append, admits_append, List.forall_mem_cons, ih]

theorem admits_part {parts : List FStrExprPart} (h : Admits F (partsFloats parts)) {e : Expr}
    (he : .expr e ∈ parts) : Admits F e.floats := by
  induction parts with
  | nil => cases he
  | cons part rest ih =>
    cases part with
    | literal s =>
      rcases List.mem_cons.mp he with he | he
      · cases he
      · exact ih h he
    | expr e' =>
      rw [partsFloats, admits_append] at h
      rcases List.mem_cons.mp he with he | he
      · cases he
        exact h.1
      · exact ih h.2 he

/-! ## Parts of a program -/

theorem admits_getElem {body : List Stmt} (h : Admits F (stmtsFloats body)) {i : Nat} {s : Stmt}
    (hs : body[i]? = some s) : Admits F s.floats :=
  admits_stmts.mp h s (List.mem_of_getElem? hs)

theorem admits_valueExpr {s : Stmt} (h : Admits F s.floats) {e : Expr} (he : s.valueExpr = some e) :
    Admits F e.floats := by
  unfold Stmt.valueExpr at he
  split at he <;> cases he <;> exact h

theorem admits_slotExpr {s : Stmt} (h : Admits F s.floats) {slot : Nat} {e : Expr}
    (he : s.slotExpr slot = some e) : Admits F e.floats := by
  unfold Stmt.slotExpr at he
  split at he
  · cases he
    exact (admits_append.mp h).1
  · cases he
    exact (admits_append.mp h).1
  · cases he
    exact (admits_append.mp h).1
  · cases he
    exact (admits_append.mp h).1
  · cases he
    exact (admits_append.mp h).2
  · exact admits_valueExpr h he
  · cases he

theorem admits_child {e : Expr} (h : Admits F e.floats) {i : Nat} {c : Expr}
    (hc : e.child i = some c) : Admits F c.floats := by
  unfold Expr.child at hc
  split at hc
  · cases hc
    exact (admits_append.mp h).1
  · exact admits_exprs.mp (admits_append.mp h).2 c (List.mem_of_getElem? hc)
  · cases hc
    exact (admits_append.mp h).1
  · cases hc
    exact (admits_append.mp h).2
  · cases hc
    exact h
  · cases hc
    exact (admits_append.mp h).1
  · cases hc
    exact (admits_append.mp h).2
  · exact admits_exprs.mp h c (List.mem_of_getElem? hc)
  · obtain ⟨p, hp, heq⟩ := Option.map_eq_some_iff.mp hc
    have hpair := admits_pairs.mp h p (List.mem_of_getElem? hp)
    split at heq <;> cases heq
    · exact hpair.1
    · exact hpair.2
  · split at hc <;> cases hc
    rename_i hpart
    exact admits_part h (List.mem_of_getElem? hpart)
  · cases hc

theorem admits_atPath {e : Expr} (h : Admits F e.floats) {path : List Nat} {c : Expr}
    (hc : e.atPath path = some c) : Admits F c.floats := by
  induction path using List.reverseRecOn generalizing c with
  | nil => cases hc; exact h
  | append_singleton path i ih =>
    rw [Expr.atPath, List.foldl_append, List.foldl_cons, List.foldl_nil] at hc
    obtain ⟨node, hnode, hchild⟩ := Option.bind_eq_some_iff.mp hc
    exact admits_child (ih hnode) hchild

theorem admits_exprAt {owner : Block} (h : Admits F (stmtsFloats owner)) {stmtIndex slot : Nat}
    {path : List Nat} {e : Expr} (he : exprAt owner stmtIndex slot path = some e) :
    Admits F e.floats := by
  simp only [exprAt, Option.bind_eq_bind, Option.bind_eq_some_iff] at he
  obtain ⟨stmt, hstmt, root, hroot, hpath⟩ := he
  exact admits_atPath (admits_slotExpr (admits_getElem h hstmt) hroot) hpath

end Admits

end Tsumugi
