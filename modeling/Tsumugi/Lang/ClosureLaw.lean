import Tsumugi.Lang.Closures

/-!
# The split of the code loses nothing (`ast.rs`)

What a node weighs is charged to one owner: the innermost body around it, or the root. The
walk that charges and the walk that lists a subtree are sequences of the same small steps,
so what they do to their state is put together from one rule for each step.

Results:
1. `walkStmts_walks`: what the walk charges, over any syntax.
2. `collectStmts_collects`: what the listing finds.
3. `split_loses_nothing`: the units are the bodies, they add up to the whole program, and
   the subtree of each is what is nested in it.
-/

namespace Tsumugi.Code

open Word

/-! ## Owners -/

mutual

/-- What the owner of a statement is charged for it: bodies of closures have their own unit. -/
def Stmt.own : Stmt → Nat
  | .«let» name value _ | .assign name value _ => value.own + astNode (owned [name])
  | .indexAssign name index value _ => index.own + value.own + astNode (owned [name])
  | .«return» value _ | .exprStmt value _ => value.own + astNode 0
  | .«if» condition thenBody elseBody _ =>
    condition.own + thenBody.own + elseBody.own + astNode 0
  | .«while» condition body _ => condition.own + body.own + astNode 0
  | .«for» var iter body _ => iter.own + body.own + astNode (owned [var])
  | .fnDef name params _ _ => 0 + astNode (owned (name :: params))
  | .«import» path _ => astNode (owned [path])
  | .tryCatch tryBody var catchBody _ => tryBody.own + catchBody.own + astNode (owned [var])
  | .«break» _ | .«continue» _ => astNode 0

def Expr.own : Expr → Nat
  | .str s => astNode (owned [s])
  | .ident name => astNode (owned [name])
  | .list items => exprsOwn items + astNode 0
  | .dict pairs => pairsOwn pairs + astNode 0
  | .binOp left _ right => left.own + right.own + astNode 0
  | .unaryOp _ e => e.own + astNode 0
  | .call callee args => callee.own + exprsOwn args + astNode 0
  | .lambda params _ => 0 + astNode (owned params)
  | .index object index => object.own + index.own + astNode 0
  | .fStr parts => partsOwn parts + astNode (owned (literals parts))
  | .int _ | .float _ | .bool _ | .null => astNode 0

def Block.own : Block → Nat
  | .mk _ stmts => stmtsOwn stmts

def stmtsOwn : List Stmt → Nat
  | [] => 0
  | s :: stmts => s.own + stmtsOwn stmts

def exprsOwn : List Expr → Nat
  | [] => 0
  | e :: es => e.own + exprsOwn es

def pairsOwn : List (Expr × Expr) → Nat
  | [] => 0
  | (key, value) :: pairs => key.own + value.own + pairsOwn pairs

def partsOwn : List FStrExprPart → Nat
  | [] => 0
  | .literal _ :: parts => partsOwn parts
  | .expr child :: parts => child.own + partsOwn parts

end

mutual

/-- The bodies of functions and lambdas in a statement, each after those nested in it. -/
def Stmt.bodies : Stmt → List Block
  | .«let» _ value _ | .assign _ value _ | .«return» value _ | .exprStmt value _ => value.bodies
  | .indexAssign _ index value _ => index.bodies ++ value.bodies
  | .«if» condition thenBody elseBody _ =>
    condition.bodies ++ thenBody.bodies ++ elseBody.bodies
  | .«while» condition body _ => condition.bodies ++ body.bodies
  | .«for» _ iter body _ => iter.bodies ++ body.bodies
  | .fnDef _ _ body _ => body.bodies ++ [body]
  | .tryCatch tryBody _ catchBody _ => tryBody.bodies ++ catchBody.bodies
  | .«break» _ | .«continue» _ | .«import» _ _ => []

def Expr.bodies : Expr → List Block
  | .list items => exprsBodies items
  | .dict pairs => pairsBodies pairs
  | .binOp left _ right => left.bodies ++ right.bodies
  | .unaryOp _ e => e.bodies
  | .call callee args => callee.bodies ++ exprsBodies args
  | .lambda _ body => body.bodies ++ [body]
  | .index object index => object.bodies ++ index.bodies
  | .fStr parts => partsBodies parts
  | .int _ | .float _ | .str _ | .bool _ | .null | .ident _ => []

def Block.bodies : Block → List Block
  | .mk _ stmts => stmtsBodies stmts

def stmtsBodies : List Stmt → List Block
  | [] => []
  | s :: stmts => s.bodies ++ stmtsBodies stmts

def exprsBodies : List Expr → List Block
  | [] => []
  | e :: es => e.bodies ++ exprsBodies es

def pairsBodies : List (Expr × Expr) → List Block
  | [] => []
  | (key, value) :: pairs => key.bodies ++ value.bodies ++ pairsBodies pairs

def partsBodies : List FStrExprPart → List Block
  | [] => []
  | .literal _ :: parts => partsBodies parts
  | .expr child :: parts => child.bodies ++ partsBodies parts

end

/-- The bodies nested in a body, itself included. -/
def Block.nested (body : Block) : List Block := body.bodies ++ [body]

/-- What a unit is charged. -/
def unitOf (body : Block) : Block × Nat := (body, min body.own maxU64)

/-- The parser allocates each block: no two bodies have one address. -/
def Allocated (program : Program) : Prop := ((stmtsBodies program).map Block.ptr).Nodup

/-- The split charges everything once: the units are the bodies, the capped sum is the size of
the program, as is the sum itself unless it is past the largest value, and the subtree of a
body is what is nested in it. -/
structure Splits (program : Program) : Prop where
  units : (astClosureBodySizes program).2.map Prod.fst = stmtsBodies program
  once : ((astClosureBodySizes program).2.map (·.1.ptr)).Nodup
  owned : ∀ unit ∈ (astClosureBodySizes program).2, unit.2 = min unit.1.own maxU64
  sum : (astClosureBodySizes program).2.foldl (fun bytes unit => satAdd bytes unit.2)
    (astClosureBodySizes program).1 = astHeapSize program
  exact : astHeapSize program < maxU64 →
    (astClosureBodySizes program).1 + ((astClosureBodySizes program).2.map Prod.snd).sum =
      astHeapSize program
  subtree : ∀ body ∈ stmtsBodies program,
    (closureBodySubtreePtrs body).Perm (body.nested.map Block.ptr)
  belongs : ∀ body ∈ stmtsBodies program, ∀ unit ∈ (astClosureBodySizes program).2,
    unit.1.ptr ∈ closureBodySubtreePtrs body ↔ unit.1 ∈ body.nested

namespace ClosureLemmas

/-! ## The walk that charges -/

/-- A walk charges its owner `own` and gives each body of `bodies` a unit, when none of them
was seen before. -/
def Walks (f : Walk → Walk) (own : Nat) (bodies : List Block) : Prop :=
  ∀ w, (w.seen ++ bodies.map Block.ptr).Nodup → w.subtotal ≤ maxU64 →
    (f w).subtotal = min (w.subtotal + own) maxU64 ∧ (f w).bodies = w.bodies ++ bodies.map unitOf ∧
      (f w).seen.Perm (w.seen ++ bodies.map Block.ptr)

theorem walks_id : Walks (fun w => w) 0 [] := by
  intro w _ hw
  refine ⟨(min_eq_left hw).symm, ?_, ?_⟩ <;> simp

theorem Walks.comp {f g : Walk → Walk} {own own' : Nat} {bodies bodies' : List Block}
    (hf : Walks f own bodies) (hg : Walks g own' bodies') :
    Walks (fun w => g (f w)) (own + own') (bodies ++ bodies') := by
  intro w hnodup hw
  rw [List.map_append, ← List.append_assoc] at hnodup
  obtain ⟨hsub, hbodies, hseen⟩ := hf w (List.nodup_append.mp hnodup).1 hw
  obtain ⟨hsub', hbodies', hseen'⟩ := hg (f w) ((hseen.append_right _).nodup_iff.mpr hnodup)
    (hsub ▸ min_le_right _ _)
  refine ⟨?_, ?_, ?_⟩
  · rw [hsub', hsub]
    omega
  · rw [hbodies', hbodies, List.map_append, List.append_assoc]
  · rw [List.map_append, ← List.append_assoc]
    exact hseen'.trans (hseen.append_right _)

theorem walks_count (ownedBytes : Nat) : Walks (·.count ownedBytes) (astNode ownedBytes) [] := by
  intro w _ _
  refine ⟨rfl, ?_, ?_⟩ <;> simp [Walk.count]

theorem Walks.count {f : Walk → Walk} {own : Nat} {bodies : List Block} (hf : Walks f own bodies)
    (ownedBytes : Nat) : Walks (fun w => (f w).count ownedBytes) (own + astNode ownedBytes) bodies := by
  have h := hf.comp (walks_count ownedBytes)
  rwa [List.append_nil] at h

/-- A body that is new gets a unit, after those nested in it. -/
theorem walks_recordBody {body : Block} {f : Walk → Walk} (hf : Walks f body.own body.bodies) :
    Walks (Walk.recordBody f body) 0 (body.bodies ++ [body]) := by
  intro w hnodup hw
  have hmove : (w.seen ++ (body.bodies ++ [body]).map Block.ptr).Perm
      (body.ptr :: w.seen ++ body.bodies.map Block.ptr) := by
    rw [List.map_append, ← List.append_assoc]
    exact List.perm_append_singleton _ _
  have hnodup' := hmove.nodup_iff.mp hnodup
  have hnew : body.ptr ∉ w.seen := fun hmem =>
    (List.nodup_cons.mp hnodup').1 (List.mem_append_left _ hmem)
  obtain ⟨hsub, hbodies, hseen⟩ := hf ⟨0, w.bodies, body.ptr :: w.seen⟩ hnodup' (Nat.zero_le _)
  rw [Walk.recordBody, if_neg hnew]
  refine ⟨(min_eq_left hw).symm, ?_, hseen.trans hmove.symm⟩
  simp only [hbodies, hsub, List.map_append, List.append_assoc, Nat.zero_add]
  rfl

mutual

theorem walkStmt_walks : ∀ s : Stmt, Walks (walkStmt s) s.own s.bodies
  | .«let» _ value _ | .assign _ value _ | .«return» value _ | .exprStmt value _ =>
    (walkExpr_walks value).count _
  | .indexAssign _ index value _ => ((walkExpr_walks index).comp (walkExpr_walks value)).count _
  | .«if» condition thenBody elseBody _ =>
    (((walkExpr_walks condition).comp (walkBlock_walks thenBody)).comp
      (walkBlock_walks elseBody)).count _
  | .«while» condition body _ => ((walkExpr_walks condition).comp (walkBlock_walks body)).count _
  | .«for» _ iter body _ => ((walkExpr_walks iter).comp (walkBlock_walks body)).count _
  | .fnDef _ _ body _ => (walks_recordBody (walkBlock_walks body)).count _
  | .tryCatch tryBody _ catchBody _ =>
    ((walkBlock_walks tryBody).comp (walkBlock_walks catchBody)).count _
  | .«import» _ _ | .«break» _ | .«continue» _ => walks_count _

theorem walkExpr_walks : ∀ e : Expr, Walks (walkExpr e) e.own e.bodies
  | .list items => (walkExprs_walks items).count _
  | .dict pairs => (walkPairs_walks pairs).count _
  | .binOp left _ right => ((walkExpr_walks left).comp (walkExpr_walks right)).count _
  | .unaryOp _ e => (walkExpr_walks e).count _
  | .call callee args => ((walkExpr_walks callee).comp (walkExprs_walks args)).count _
  | .lambda _ body => (walks_recordBody (walkBlock_walks body)).count _
  | .index object index => ((walkExpr_walks object).comp (walkExpr_walks index)).count _
  | .fStr parts => (walkParts_walks parts).count _
  | .str _ | .ident _ | .int _ | .float _ | .bool _ | .null => walks_count _

theorem walkBlock_walks : ∀ b : Block, Walks (walkBlock b) b.own b.bodies
  | .mk _ stmts => walkStmts_walks stmts

theorem walkStmts_walks : ∀ stmts : List Stmt,
    Walks (walkStmts stmts) (stmtsOwn stmts) (stmtsBodies stmts)
  | [] => walks_id
  | s :: stmts => (walkStmt_walks s).comp (walkStmts_walks stmts)

theorem walkExprs_walks : ∀ es : List Expr, Walks (walkExprs es) (exprsOwn es) (exprsBodies es)
  | [] => walks_id
  | e :: es => (walkExpr_walks e).comp (walkExprs_walks es)

theorem walkPairs_walks : ∀ pairs : List (Expr × Expr),
    Walks (walkPairs pairs) (pairsOwn pairs) (pairsBodies pairs)
  | [] => walks_id
  | (key, value) :: pairs =>
    ((walkExpr_walks key).comp (walkExpr_walks value)).comp (walkPairs_walks pairs)

theorem walkParts_walks : ∀ parts : List FStrExprPart,
    Walks (walkParts parts) (partsOwn parts) (partsBodies parts)
  | [] => walks_id
  | .literal _ :: parts => walkParts_walks parts
  | .expr child :: parts => (walkExpr_walks child).comp (walkParts_walks parts)

end

/-! ## The walk that lists -/

/-- A walk finds the addresses of `bodies`, when none of them was seen before. -/
def Collects (f : Collected → Collected) (bodies : List Block) : Prop :=
  ∀ c, (c.seen ++ bodies.map Block.ptr).Nodup →
    (f c).ptrs.Perm (c.ptrs ++ bodies.map Block.ptr) ∧
      (f c).seen.Perm (c.seen ++ bodies.map Block.ptr)

theorem collects_id : Collects (fun c => c) [] := by
  intro c _
  constructor <;> simp

theorem Collects.comp {f g : Collected → Collected} {bodies bodies' : List Block}
    (hf : Collects f bodies) (hg : Collects g bodies') :
    Collects (fun c => g (f c)) (bodies ++ bodies') := by
  intro c hnodup
  rw [List.map_append, ← List.append_assoc] at hnodup
  obtain ⟨hptrs, hseen⟩ := hf c (List.nodup_append.mp hnodup).1
  obtain ⟨hptrs', hseen'⟩ := hg (f c) ((hseen.append_right _).nodup_iff.mpr hnodup)
  rw [List.map_append, ← List.append_assoc, ← List.append_assoc]
  exact ⟨hptrs'.trans (hptrs.append_right _), hseen'.trans (hseen.append_right _)⟩

/-- A body that is new is found, before those nested in it. -/
theorem collects_addBody {body : Block} {f : Collected → Collected}
    (hf : Collects f body.bodies) : Collects (Collected.addBody f body) body.nested := by
  intro c hnodup
  have hmove : ∀ l : List Nat, (l ++ body.nested.map Block.ptr).Perm
      (body.ptr :: l ++ body.bodies.map Block.ptr) := by
    intro l
    rw [Block.nested, List.map_append, ← List.append_assoc]
    exact List.perm_append_singleton _ _
  have hnodup' := (hmove c.seen).nodup_iff.mp hnodup
  have hnew : body.ptr ∉ c.seen := fun hmem =>
    (List.nodup_cons.mp hnodup').1 (List.mem_append_left _ hmem)
  obtain ⟨hptrs, hseen⟩ := hf ⟨c.ptrs ++ [body.ptr], body.ptr :: c.seen⟩ hnodup'
  rw [Collected.addBody, if_neg hnew]
  refine ⟨hptrs.trans (.trans ?_ (hmove c.ptrs).symm), hseen.trans (hmove c.seen).symm⟩
  exact (List.perm_append_singleton _ _).append_right _

mutual

theorem collectStmt_collects : ∀ s : Stmt, Collects (collectStmt s) s.bodies
  | .«let» _ value _ | .assign _ value _ | .«return» value _ | .exprStmt value _ =>
    collectExpr_collects value
  | .indexAssign _ index value _ => (collectExpr_collects index).comp (collectExpr_collects value)
  | .«if» condition thenBody elseBody _ =>
    ((collectExpr_collects condition).comp (collectBlock_collects thenBody)).comp
      (collectBlock_collects elseBody)
  | .«while» condition body _ => (collectExpr_collects condition).comp (collectBlock_collects body)
  | .«for» _ iter body _ => (collectExpr_collects iter).comp (collectBlock_collects body)
  | .fnDef _ _ body _ => collects_addBody (collectBlock_collects body)
  | .tryCatch tryBody _ catchBody _ =>
    (collectBlock_collects tryBody).comp (collectBlock_collects catchBody)
  | .«import» _ _ | .«break» _ | .«continue» _ => collects_id

theorem collectExpr_collects : ∀ e : Expr, Collects (collectExpr e) e.bodies
  | .list items => collectExprs_collects items
  | .dict pairs => collectPairs_collects pairs
  | .binOp left _ right => (collectExpr_collects left).comp (collectExpr_collects right)
  | .unaryOp _ e => collectExpr_collects e
  | .call callee args => (collectExpr_collects callee).comp (collectExprs_collects args)
  | .lambda _ body => collects_addBody (collectBlock_collects body)
  | .index object index => (collectExpr_collects object).comp (collectExpr_collects index)
  | .fStr parts => collectParts_collects parts
  | .str _ | .ident _ | .int _ | .float _ | .bool _ | .null => collects_id

theorem collectBlock_collects : ∀ b : Block, Collects (collectBlock b) b.bodies
  | .mk _ stmts => collectStmts_collects stmts

theorem collectStmts_collects : ∀ stmts : List Stmt,
    Collects (collectStmts stmts) (stmtsBodies stmts)
  | [] => collects_id
  | s :: stmts => (collectStmt_collects s).comp (collectStmts_collects stmts)

theorem collectExprs_collects : ∀ es : List Expr, Collects (collectExprs es) (exprsBodies es)
  | [] => collects_id
  | e :: es => (collectExpr_collects e).comp (collectExprs_collects es)

theorem collectPairs_collects : ∀ pairs : List (Expr × Expr),
    Collects (collectPairs pairs) (pairsBodies pairs)
  | [] => collects_id
  | (key, value) :: pairs =>
    ((collectExpr_collects key).comp (collectExpr_collects value)).comp
      (collectPairs_collects pairs)

theorem collectParts_collects : ∀ parts : List FStrExprPart,
    Collects (collectParts parts) (partsBodies parts)
  | [] => collects_id
  | .literal _ :: parts => collectParts_collects parts
  | .expr child :: parts => (collectExpr_collects child).comp (collectParts_collects parts)

end

theorem closureBodySubtreePtrs_perm {body : Block} (h : (body.nested.map Block.ptr).Nodup) :
    (closureBodySubtreePtrs body).Perm (body.nested.map Block.ptr) :=
  (collects_addBody (collectBlock_collects body) ⟨[], []⟩ h).1

/-! ## What is nested -/

/-- What is nested in a body of a list is in the list. -/
def Closed (bodies : List Block) : Prop := ∀ b ∈ bodies, b.nested.Sublist bodies

theorem closed_nil : Closed [] := nofun

theorem Closed.append {bodies bodies' : List Block} (h : Closed bodies) (h' : Closed bodies') :
    Closed (bodies ++ bodies') := by
  intro b hb
  obtain hb | hb := List.mem_append.mp hb
  · exact (h b hb).trans (List.sublist_append_left _ _)
  · exact (h' b hb).trans (List.sublist_append_right _ _)

theorem closed_nested {body : Block} (h : Closed body.bodies) : Closed body.nested := by
  intro b hb
  obtain hb | hb := List.mem_append.mp hb
  · exact (h b hb).trans (List.sublist_append_left _ _)
  · rw [List.mem_singleton.mp hb]

mutual

theorem closed_stmt : ∀ s : Stmt, Closed s.bodies
  | .«let» _ value _ | .assign _ value _ | .«return» value _ | .exprStmt value _ =>
    closed_expr value
  | .indexAssign _ index value _ => (closed_expr index).append (closed_expr value)
  | .«if» condition thenBody elseBody _ =>
    ((closed_expr condition).append (closed_block thenBody)).append (closed_block elseBody)
  | .«while» condition body _ => (closed_expr condition).append (closed_block body)
  | .«for» _ iter body _ => (closed_expr iter).append (closed_block body)
  | .fnDef _ _ body _ => closed_nested (closed_block body)
  | .tryCatch tryBody _ catchBody _ => (closed_block tryBody).append (closed_block catchBody)
  | .«import» _ _ | .«break» _ | .«continue» _ => closed_nil

theorem closed_expr : ∀ e : Expr, Closed e.bodies
  | .list items => closed_exprs items
  | .dict pairs => closed_pairs pairs
  | .binOp left _ right => (closed_expr left).append (closed_expr right)
  | .unaryOp _ e => closed_expr e
  | .call callee args => (closed_expr callee).append (closed_exprs args)
  | .lambda _ body => closed_nested (closed_block body)
  | .index object index => (closed_expr object).append (closed_expr index)
  | .fStr parts => closed_parts parts
  | .str _ | .ident _ | .int _ | .float _ | .bool _ | .null => closed_nil

theorem closed_block : ∀ b : Block, Closed b.bodies
  | .mk _ stmts => closed_stmts stmts

theorem closed_stmts : ∀ stmts : List Stmt, Closed (stmtsBodies stmts)
  | [] => closed_nil
  | s :: stmts => (closed_stmt s).append (closed_stmts stmts)

theorem closed_exprs : ∀ es : List Expr, Closed (exprsBodies es)
  | [] => closed_nil
  | e :: es => (closed_expr e).append (closed_exprs es)

theorem closed_pairs : ∀ pairs : List (Expr × Expr), Closed (pairsBodies pairs)
  | [] => closed_nil
  | (key, value) :: pairs => ((closed_expr key).append (closed_expr value)).append
      (closed_pairs pairs)

theorem closed_parts : ∀ parts : List FStrExprPart, Closed (partsBodies parts)
  | [] => closed_nil
  | .literal _ :: parts => closed_parts parts
  | .expr child :: parts => (closed_expr child).append (closed_parts parts)

end

/-! ## The reference -/

/-- What the owners are charged for some bodies. -/
def charged (bodies : List Block) : Nat := (bodies.map Block.own).sum

@[simp] theorem charged_append (bodies bodies' : List Block) :
    charged (bodies ++ bodies') = charged bodies + charged bodies' := by
  simp [charged]

@[simp] theorem charged_nil : charged [] = 0 := rfl

@[simp] theorem charged_singleton (b : Block) : charged [b] = b.own := by simp [charged]

/-- What a node weighs, with all that is below it. -/
def weight : AstNode → Nat
  | .stmt s => s.own + charged s.bodies
  | .expr e => e.own + charged e.bodies

theorem weight_stmts (stmts : List Stmt) : ((stmts.map AstNode.stmt).map weight).sum =
    stmtsOwn stmts + charged (stmtsBodies stmts) := by
  induction stmts with
  | nil => rfl
  | cons s stmts ih =>
    simp only [List.map_cons, List.sum_cons, weight, ih, stmtsOwn, stmtsBodies, charged_append]
    omega

theorem weight_block (b : Block) : ((b.stmts.map AstNode.stmt).map weight).sum =
    b.own + charged b.bodies := by
  obtain ⟨ptr, stmts⟩ := b
  exact weight_stmts stmts

theorem weight_exprs (es : List Expr) : ((es.map AstNode.expr).map weight).sum =
    exprsOwn es + charged (exprsBodies es) := by
  induction es with
  | nil => rfl
  | cons e es ih =>
    simp only [List.map_cons, List.sum_cons, weight, ih, exprsOwn, exprsBodies, charged_append]
    omega

theorem weight_pairs (pairs : List (Expr × Expr)) :
    ((pairs.flatMap fun p => [AstNode.expr p.1, AstNode.expr p.2]).map weight).sum =
      pairsOwn pairs + charged (pairsBodies pairs) := by
  induction pairs with
  | nil => rfl
  | cons p pairs ih =>
    obtain ⟨key, value⟩ := p
    simp only [List.flatMap_cons, List.map_append, List.map_cons, List.map_nil, List.sum_append,
      List.sum_cons, List.sum_nil, weight, ih, pairsOwn, pairsBodies, charged_append]
    omega

theorem weight_parts (parts : List FStrExprPart) :
    ((parts.filterMap AstNode.interpolated).map weight).sum =
      partsOwn parts + charged (partsBodies parts) := by
  induction parts with
  | nil => rfl
  | cons part parts ih =>
    cases part with
    | literal s =>
      simpa only [List.filterMap_cons, AstNode.interpolated, partsOwn, partsBodies] using ih
    | expr child =>
      simp only [List.filterMap_cons, AstNode.interpolated, List.map_cons, List.sum_cons, weight, ih,
        partsOwn, partsBodies, charged_append]
      omega

/-- The weight of a node is its own and that of what it puts on the work list. -/
theorem weight_visit (node : AstNode) :
    weight node = astNode node.visit.1 + (node.visit.2.map weight).sum := by
  cases node with
  | stmt s =>
    cases s <;>
      simp only [AstNode.visit, weight, Stmt.own, Stmt.bodies, List.map_append, List.map_cons,
        List.map_nil, List.sum_append, List.sum_cons, List.sum_nil, weight_block, charged_append,
        charged_singleton, charged_nil] <;>
      omega
  | expr e =>
    cases e <;>
      simp only [AstNode.visit, weight, Expr.own, Expr.bodies, List.map_append, List.map_cons,
        List.map_nil, List.sum_append, List.sum_cons, List.sum_nil, weight_block, weight_exprs,
        weight_pairs, weight_parts, charged_append, charged_singleton, charged_nil] <;>
      omega

theorem astHeapSizeFrom_eq (total : Nat) (worklist : List AstNode) (h : total ≤ maxU64) :
    astHeapSizeFrom total worklist = min (total + (worklist.map weight).sum) maxU64 := by
  induction total, worklist using astHeapSizeFrom.induct with
  | case1 total => simpa [astHeapSizeFrom] using h
  | case2 total node worklist ih =>
    rw [astHeapSizeFrom, ih (satAdd_le _ _)]
    simp only [List.map_append, List.sum_append, List.map_reverse, List.sum_reverse,
      List.map_cons, List.sum_cons, weight_visit node, satAdd]
    omega

theorem astHeapSize_eq (program : Program) :
    astHeapSize program =
      min (astRoot + stmtsOwn program + charged (stmtsBodies program)) maxU64 := by
  rw [astHeapSize, astHeapSizeFrom_eq _ _ (by decide), List.map_reverse, List.sum_reverse,
    weight_stmts, Nat.add_assoc]

/-- What the split gives, in terms of owners. -/
theorem astClosureBodySizes_eq {program : Program} (h : Allocated program) :
    astClosureBodySizes program =
      (min (astRoot + stmtsOwn program) maxU64, (stmtsBodies program).map unitOf) := by
  obtain ⟨hsub, hbodies, -⟩ := walkStmts_walks program ⟨astRoot, [], []⟩ h (by decide)
  exact Prod.ext hsub hbodies

theorem foldl_units (bodies : List Block) (bytes : Nat) :
    (bodies.map unitOf).foldl (fun bytes unit => satAdd bytes unit.2) (min bytes maxU64) =
      min (bytes + charged bodies) maxU64 := by
  induction bodies generalizing bytes with
  | nil => rfl
  | cons b bodies ih =>
    have hstep : satAdd (min bytes maxU64) (unitOf b).2 = min (bytes + b.own) maxU64 := by
      simp only [satAdd, unitOf]
      omega
    rw [List.map_cons, List.foldl_cons, hstep, ih, Nat.add_assoc]
    rfl

theorem sum_units {bodies : List Block} (h : charged bodies < maxU64) :
    ((bodies.map unitOf).map Prod.snd).sum = charged bodies := by
  induction bodies with
  | nil => rfl
  | cons b bodies ih =>
    have hsum : charged (b :: bodies) = b.own + charged bodies := by simp [charged]
    rw [hsum] at h ⊢
    rw [List.map_cons, List.map_cons, List.sum_cons, ih (by omega), unitOf, min_eq_left (by omega)]

end ClosureLemmas

open ClosureLemmas

/-- Whatever the nesting, the split of a program whose blocks were allocated one by one charges
everything once. -/
theorem split_loses_nothing (program : Program) (h : Allocated program) : Splits program := by
  have hsplit := astClosureBodySizes_eq h
  have hunits : (astClosureBodySizes program).2.map Prod.fst = stmtsBodies program := by
    rw [hsplit, List.map_map]
    exact List.map_id _
  have hnested : ∀ body ∈ stmtsBodies program,
      (closureBodySubtreePtrs body).Perm (body.nested.map Block.ptr) := fun body hbody =>
    closureBodySubtreePtrs_perm (h.sublist ((closed_stmts program body hbody).map Block.ptr))
  refine ⟨hunits, ?_, ?_, ?_, fun hfits => ?_, hnested, fun body hbody unit hunit => ?_⟩
  · have hptrs : (astClosureBodySizes program).2.map (·.1.ptr) =
        (stmtsBodies program).map Block.ptr := by
      rw [← hunits, List.map_map]
      rfl
    rw [hptrs]
    exact h
  · intro unit hunit
    rw [hsplit] at hunit
    obtain ⟨body, -, rfl⟩ := List.mem_map.mp hunit
    rfl
  · rw [hsplit, foldl_units, astHeapSize_eq]
  · rw [astHeapSize_eq] at hfits ⊢
    have hcharged : charged (stmtsBodies program) < maxU64 := by omega
    rw [hsplit, sum_units hcharged]
    omega
  · have hmem : unit.1 ∈ stmtsBodies program := hunits ▸ List.mem_map_of_mem hunit
    rw [(hnested body hbody).mem_iff, List.mem_map]
    refine ⟨?_, fun h => ⟨unit.1, h, rfl⟩⟩
    rintro ⟨inner, hinner, hptr⟩
    have hinner' := (closed_stmts program body hbody).subset hinner
    rwa [← List.inj_on_of_nodup_map h hinner' hmem hptr]

/-! ## A nested program -/

/-- A function that declares another one in its body and calls a lambda in an f-string. -/
def nestedProgram : Program :=
  [.fnDef "outer" ["x"] (.mk 3 [
      .fnDef "inner" ["y"] (.mk 1 [.return (.ident "y") 2]) 1,
      .return (.fStr [.literal "r", .expr (.call (.lambda [] (.mk 2 [.return .null 3])) [])]) 3]) 1,
    .exprStmt (.call (.ident "outer") [.int 1]) 4]

theorem nestedProgram_allocated : Allocated nestedProgram := by
  unfold Allocated
  decide

theorem nestedProgram_splits : Splits nestedProgram :=
  split_loses_nothing nestedProgram nestedProgram_allocated

end Tsumugi.Code
