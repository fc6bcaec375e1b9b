import Tsumugi.Syntax.LexerLines
import Tsumugi.Syntax.SourceText

/-!
# Line numbers

The parser carries the lines of the tokens into the tree, and reads nothing off them. The tokens
of an f-string part have lines of their own, which count from the start of the part.

Results:
1. `derives_renumber`: tokens with other line numbers are the same phrase with other line numbers.
2. `tokensFrom_shift`: from a later line on, a text has the same tokens on later lines.
3. `parse_renumber`: what is derived from a later line on is accepted from the first line on.
-/

namespace Tsumugi

mutual

/-- Other line numbers. Those in f-strings stay. -/
def Stmt.renumber (g : Nat → Nat) : Stmt → Stmt
  | .«let» name e l => .«let» name (e.renumber g) (g l)
  | .assign name e l => .assign name (e.renumber g) (g l)
  | .indexAssign name idx e l => .indexAssign name (idx.renumber g) (e.renumber g) (g l)
  | .«return» e l => .«return» (e.renumber g) (g l)
  | .«if» c thenBody elseBody l =>
    .«if» (c.renumber g) (stmtsRenumber g thenBody) (stmtsRenumber g elseBody) (g l)
  | .«while» c body l => .«while» (c.renumber g) (stmtsRenumber g body) (g l)
  | .«for» var iter body l => .«for» var (iter.renumber g) (stmtsRenumber g body) (g l)
  | .fnDef name params body l => .fnDef name params (stmtsRenumber g body) (g l)
  | .«break» l => .«break» (g l)
  | .«continue» l => .«continue» (g l)
  | .«import» path l => .«import» path (g l)
  | .tryCatch tryBody var catchBody l =>
    .tryCatch (stmtsRenumber g tryBody) var (stmtsRenumber g catchBody) (g l)
  | .exprStmt e l => .exprStmt (e.renumber g) (g l)

def Expr.renumber (g : Nat → Nat) : Expr → Expr
  | .list items => .list (exprsRenumber g items)
  | .dict pairs => .dict (pairsRenumber g pairs)
  | .binOp left op right => .binOp (left.renumber g) op (right.renumber g)
  | .unaryOp op e => .unaryOp op (e.renumber g)
  | .call callee args => .call (callee.renumber g) (exprsRenumber g args)
  | .lambda params body => .lambda params (stmtsRenumber g body)
  | .index object idx => .index (object.renumber g) (idx.renumber g)
  | .int n => .int n
  | .float bits => .float bits
  | .str s => .str s
  | .bool b => .bool b
  | .null => .null
  | .ident name => .ident name
  | .fStr parts => .fStr parts

def stmtsRenumber (g : Nat → Nat) : List Stmt → List Stmt
  | [] => []
  | s :: rest => s.renumber g :: stmtsRenumber g rest

def exprsRenumber (g : Nat → Nat) : List Expr → List Expr
  | [] => []
  | e :: rest => e.renumber g :: exprsRenumber g rest

def pairsRenumber (g : Nat → Nat) : List (Expr × Expr) → List (Expr × Expr)
  | [] => []
  | (k, v) :: rest => (k.renumber g, v.renumber g) :: pairsRenumber g rest

end

section

variable (g g' : Nat → Nat)

mutual

theorem Stmt.renumber_renumber :
    ∀ s : Stmt, (s.renumber g).renumber g' = s.renumber (g' ∘ g)
  | .«let» _ e _ | .assign _ e _ | .«return» e _ | .exprStmt e _ => by
    simp only [Stmt.renumber, Expr.renumber_renumber e, Function.comp_apply]
  | .indexAssign _ idx e _ => by
    simp only [Stmt.renumber, Expr.renumber_renumber idx, Expr.renumber_renumber e,
      Function.comp_apply]
  | .«if» c thenBody elseBody _ => by
    simp only [Stmt.renumber, Expr.renumber_renumber c, stmtsRenumber_renumber thenBody,
      stmtsRenumber_renumber elseBody, Function.comp_apply]
  | .«while» c body _ | .«for» _ c body _ => by
    simp only [Stmt.renumber, Expr.renumber_renumber c, stmtsRenumber_renumber body,
      Function.comp_apply]
  | .fnDef _ _ body _ => by
    simp only [Stmt.renumber, stmtsRenumber_renumber body, Function.comp_apply]
  | .«break» _ | .«continue» _ | .«import» _ _ => rfl
  | .tryCatch tryBody _ catchBody _ => by
    simp only [Stmt.renumber, stmtsRenumber_renumber tryBody, stmtsRenumber_renumber catchBody,
      Function.comp_apply]

theorem Expr.renumber_renumber :
    ∀ e : Expr, (e.renumber g).renumber g' = e.renumber (g' ∘ g)
  | .list items => by simp only [Expr.renumber, exprsRenumber_renumber items]
  | .dict pairs => by simp only [Expr.renumber, pairsRenumber_renumber pairs]
  | .binOp left _ right => by
    simp only [Expr.renumber, Expr.renumber_renumber left, Expr.renumber_renumber right]
  | .unaryOp _ e => by simp only [Expr.renumber, Expr.renumber_renumber e]
  | .call callee args => by
    simp only [Expr.renumber, Expr.renumber_renumber callee, exprsRenumber_renumber args]
  | .lambda _ body => by simp only [Expr.renumber, stmtsRenumber_renumber body]
  | .index object idx => by
    simp only [Expr.renumber, Expr.renumber_renumber object, Expr.renumber_renumber idx]
  | .int _ | .float _ | .str _ | .bool _ | .null | .ident _ | .fStr _ => rfl

theorem stmtsRenumber_renumber :
    ∀ stmts : List Stmt, stmtsRenumber g' (stmtsRenumber g stmts) = stmtsRenumber (g' ∘ g) stmts
  | [] => rfl
  | s :: rest => by
    simp only [stmtsRenumber, Stmt.renumber_renumber s, stmtsRenumber_renumber rest]

theorem exprsRenumber_renumber :
    ∀ es : List Expr, exprsRenumber g' (exprsRenumber g es) = exprsRenumber (g' ∘ g) es
  | [] => rfl
  | e :: rest => by
    simp only [exprsRenumber, Expr.renumber_renumber e, exprsRenumber_renumber rest]

theorem pairsRenumber_renumber :
    ∀ ps : List (Expr × Expr), pairsRenumber g' (pairsRenumber g ps) = pairsRenumber (g' ∘ g) ps
  | [] => rfl
  | (k, v) :: rest => by
    simp only [pairsRenumber, Expr.renumber_renumber k, Expr.renumber_renumber v,
      pairsRenumber_renumber rest]

end

mutual

/-- The height stays. -/
theorem Stmt.renumber_height : ∀ s : Stmt, (s.renumber g).height = s.height
  | .«let» _ e _ | .assign _ e _ | .«return» e _ | .exprStmt e _ => by
    simp only [Stmt.renumber, Stmt.height, Expr.renumber_height e]
  | .indexAssign _ idx e _ => by
    simp only [Stmt.renumber, Stmt.height, Expr.renumber_height idx, Expr.renumber_height e]
  | .«if» c thenBody elseBody _ => by
    simp only [Stmt.renumber, Stmt.height, Expr.renumber_height c, stmtsRenumber_height thenBody,
      stmtsRenumber_height elseBody]
  | .«while» c body _ | .«for» _ c body _ => by
    simp only [Stmt.renumber, Stmt.height, Expr.renumber_height c, stmtsRenumber_height body]
  | .fnDef _ _ body _ => by simp only [Stmt.renumber, Stmt.height, stmtsRenumber_height body]
  | .«break» _ | .«continue» _ | .«import» _ _ => rfl
  | .tryCatch tryBody _ catchBody _ => by
    simp only [Stmt.renumber, Stmt.height, stmtsRenumber_height tryBody,
      stmtsRenumber_height catchBody]

theorem Expr.renumber_height : ∀ e : Expr, (e.renumber g).height = e.height
  | .list items => by simp only [Expr.renumber, Expr.height, exprsRenumber_height items]
  | .dict pairs => by simp only [Expr.renumber, Expr.height, pairsRenumber_height pairs]
  | .binOp left _ right => by
    simp only [Expr.renumber, Expr.height, Expr.renumber_height left, Expr.renumber_height right]
  | .unaryOp _ e => by simp only [Expr.renumber, Expr.height, Expr.renumber_height e]
  | .call callee args => by
    simp only [Expr.renumber, Expr.height, Expr.renumber_height callee, exprsRenumber_height args]
  | .lambda _ body => by simp only [Expr.renumber, Expr.height, stmtsRenumber_height body]
  | .index object idx => by
    simp only [Expr.renumber, Expr.height, Expr.renumber_height object, Expr.renumber_height idx]
  | .int _ | .float _ | .str _ | .bool _ | .null | .ident _ | .fStr _ => rfl

theorem stmtsRenumber_height :
    ∀ stmts : List Stmt, stmtsHeight (stmtsRenumber g stmts) = stmtsHeight stmts
  | [] => rfl
  | s :: rest => by
    simp only [stmtsRenumber, stmtsHeight, Stmt.renumber_height s, stmtsRenumber_height rest]

theorem exprsRenumber_height :
    ∀ es : List Expr, exprsHeight (exprsRenumber g es) = exprsHeight es
  | [] => rfl
  | e :: rest => by
    simp only [exprsRenumber, exprsHeight, Expr.renumber_height e, exprsRenumber_height rest]

theorem pairsRenumber_height :
    ∀ ps : List (Expr × Expr), pairsHeight (pairsRenumber g ps) = pairsHeight ps
  | [] => rfl
  | (k, v) :: rest => by
    simp only [pairsRenumber, pairsHeight, Expr.renumber_height k, Expr.renumber_height v,
      pairsRenumber_height rest]

end

end

theorem stmtsRenumber_append (g : Nat → Nat) (a b : List Stmt) :
    stmtsRenumber g (a ++ b) = stmtsRenumber g a ++ stmtsRenumber g b := by
  induction a with
  | nil => rfl
  | cons s a ih => rw [List.cons_append, stmtsRenumber, stmtsRenumber, ih, List.cons_append]

end Tsumugi

namespace Tsumugi.Syntax

/-! ## Tokens -/

/-- The token on another line. -/
def Spanned.renumber (g : Nat → Nat) : Spanned → Spanned
  | .mk t l => .mk t (g l)

@[simp] theorem renumber_token (g : Nat → Nat) (t : Spanned) : (t.renumber g).token = t.token := by
  cases t
  rfl

variable (g : Nat → Nat)

theorem headToken_renumber (ts : List Spanned) :
    headToken (ts.map (Spanned.renumber g)) = headToken ts := by
  cases ts with
  | nil => rfl
  | cons t ts => exact renumber_token g t

theorem headMark_renumber (ts : List Spanned) :
    headMark (ts.map (Spanned.renumber g)) = headMark ts := by
  rw [headMark, headToken_renumber, headMark]

theorem headLine_renumber {ts : List Spanned} (hts : ts ≠ []) :
    headLine (ts.map (Spanned.renumber g)) = g (headLine ts) := by
  cases ts with
  | nil => exact absurd rfl hts
  | cons t ts =>
    cases t
    rfl

theorem dropNewlines_renumber (ts : List Spanned) :
    dropNewlines (ts.map (Spanned.renumber g)) = (dropNewlines ts).map (Spanned.renumber g) := by
  simp only [dropNewlines, List.dropWhile_map, Function.comp_def, renumber_token]

theorem afterReturn_renumber (ts : List Spanned) :
    afterReturn (ts.map (Spanned.renumber g)) = (afterReturn ts).map (Spanned.renumber g) := by
  rw [afterReturn, afterReturn, headMark_renumber]
  split
  · exact List.map_tail.symm
  · rfl

theorem LineEnd.renumber {ts r : List Spanned} (h : LineEnd ts r) :
    LineEnd (ts.map (Spanned.renumber g)) (r.map (Spanned.renumber g)) := by
  cases h with
  | newline => exact .newline
  | eof h => exact .eof (by rwa [headMark_renumber])

/-! ## Phrases -/

/-- The phrase with other line numbers. -/
def Phrase.renumber : Phrase → Phrase
  | .expr e => .expr (e.renumber g)
  | .binary p e => .binary p (e.renumber g)
  | .unary e => .unary (e.renumber g)
  | .call e => .call (e.renumber g)
  | .primary e => .primary (e.renumber g)
  | .args es => .args (exprsRenumber g es)
  | .moreExprs literal es => .moreExprs literal (exprsRenumber g es)
  | .pair (k, v) => .pair (k.renumber g, v.renumber g)
  | .morePairs ps => .morePairs (pairsRenumber g ps)
  | .parts l ps result => .parts (g l) ps result
  | .params names => .params names
  | .moreParams names => .moreParams names
  | .block terminators stmts => .block terminators (stmtsRenumber g stmts)
  | .stmt top s => .stmt top (s.renumber g)
  | .form top s => .form top (s.renumber g)
  | .conditional s => .conditional (s.renumber g)
  | .branches stmts => .branches (stmtsRenumber g stmts)
  | .program stmts => .program (stmtsRenumber g stmts)

theorem operand_renumber (p : Prec) (e : Expr) :
    (p.operand e).renumber g = p.operand (e.renumber g) := by
  cases p <;> rfl

/-- What begins with a token is not the end. -/
theorem derives_ne_nil {d : Nat} {f : Bool} {e : Expr} {ts r : List Spanned}
    (h : Derives d f (.expr e) ts r) : ts ≠ [] := by
  rintro rfl
  have hbegins : (headToken []).beginsExpr = true := derives_begins h
  cases hbegins

theorem derives_renumber {d : Nat} {f : Bool} {φ : Phrase} {ts r : List Spanned}
    (h : Derives d f φ ts r) :
    Derives d f (φ.renumber g) (ts.map (Spanned.renumber g)) (r.map (Spanned.renumber g)) := by
  induction h with
  | expr hd _ ih => exact .expr hd ih
  | operand _ ih =>
    rw [operand_renumber] at ih
    exact .operand ih
  | operation hop _ _ ih ih' =>
    rw [operand_renumber] at ih'
    exact .operation hop ih ih'
  | unaryCall _ ih => exact .unaryCall ih
  | unaryOp hd hop _ ih => exact .unaryOp hd hop ih
  | callPrimary _ ih => exact .callPrimary ih
  | callArgs _ _ ih ih' => exact .callArgs ih ih'
  | callIndex _ _ ih ih' => exact .callIndex ih ih'
  | argsNil => exact .argsNil
  | argsCons _ _ ih ih' => exact .argsCons ih ih'
  | moreNil => exact .moreNil
  | moreTrailing => exact .moreTrailing
  | moreCons _ _ ih ih' => exact .moreCons ih ih'
  | pair _ _ ih ih' => exact .pair ih ih'
  | pairsNil => exact .pairsNil
  | pairsTrailing => exact .pairsTrailing
  | @pairsCons _ _ p _ _ _ _ _ _ _ ih ih' =>
    obtain ⟨k, v⟩ := p
    exact .pairsCons ih ih'
  | int => exact .int
  | float => exact .float
  | str => exact .str
  | boolTrue => exact .boolTrue
  | boolFalse => exact .boolFalse
  | null => exact .null
  | ident => exact .ident
  | print _ ih => exact .print ih
  | paren _ ih => exact .paren ih
  | listNil => exact .listNil
  | list _ _ ih ih' => exact .list ih ih'
  | dictNil => exact .dictNil
  | @dict _ _ p _ _ _ _ _ _ _ _ ih ih' =>
    obtain ⟨k, v⟩ := p
    exact .dict ih ih'
  | fStr _ ih => exact .fStr ih
  | lambdaBlock _ _ ih ih' => exact .lambdaBlock ih ih'
  | @lambdaExpr d f params e l l₁ l₂ l₃ ts mid r _ hbody ih ih' =>
    have hmid : mid ≠ [] := by
      rintro rfl
      exact derives_ne_nil hbody rfl
    rw [← afterReturn_renumber] at ih'
    have hlambda : Derives d f (.primary (.lambda params [.«return» (e.renumber g)
        (headLine (mid.map (Spanned.renumber g)))])) (tok .fn (g l) :: tok .lParen (g l₁) ::
          ts.map (Spanned.renumber g)) (r.map (Spanned.renumber g)) := .lambdaExpr ih ih'
    rw [headLine_renumber g hmid] at hlambda
    exact hlambda
  | partsNil => exact .partsNil
  | partsLiteral _ ih => exact .partsLiteral ih
  | @partsExpr d f l tokens e r parts result h hr _ _ ih' =>
    -- an interpolation has a token, so that the line of the f-string is not used
    have hclose : closePart (g l) tokens = closePart l tokens := by
      cases tokens with
      | nil =>
        have hbegins : (headToken (closePart l [])).beginsExpr = true := derives_begins h
        cases hbegins
      | cons t tokens => simp [closePart, List.getLast?_cons]
    exact .partsExpr (by rwa [hclose]) hr ih'
  | paramsNil => exact .paramsNil
  | paramsCons _ ih => exact .paramsCons ih
  | moreParamsNil => exact .moreParamsNil
  | moreParamsCons _ ih => exact .moreParamsCons ih
  | blockNil h => exact .blockNil (by rwa [headMark_renumber])
  | blockCons _ _ ih ih' =>
    rw [← dropNewlines_renumber] at ih'
    exact .blockCons ih ih'
  | stmt hd _ ih => exact .stmt hd ih
  | «let» _ hend ih => exact .«let» ih (hend.renumber g)
  | assign _ hend ih => exact .assign ih (hend.renumber g)
  | indexAssign _ _ hend ih ih' => exact .indexAssign ih ih' (hend.renumber g)
  | «return» _ hend ih => exact .«return» ih (hend.renumber g)
  | «if» _ ih => exact .«if» ih
  | «while» _ _ hend ih ih' =>
    rw [← dropNewlines_renumber] at ih'
    exact .«while» ih ih' (hend.renumber g)
  | «for» _ _ hend ih ih' =>
    rw [← dropNewlines_renumber] at ih'
    exact .«for» ih ih' (hend.renumber g)
  | fnDef _ _ hend ih ih' =>
    rw [← dropNewlines_renumber] at ih'
    exact .fnDef ih ih' (hend.renumber g)
  | «break» hend => exact .«break» (hend.renumber g)
  | «continue» hend => exact .«continue» (hend.renumber g)
  | «import» hend => exact .«import» (hend.renumber g)
  | tryCatch _ _ hend ih ih' =>
    rw [← dropNewlines_renumber] at ih ih'
    exact .tryCatch ih ih' (hend.renumber g)
  | exprStmt hfn h hend ih =>
    rw [← headMark_renumber g] at hfn
    rw [Phrase.renumber, Stmt.renumber, ← headLine_renumber g (derives_ne_nil h)]
    exact .exprStmt hfn ih (hend.renumber g)
  | conditional ht _ _ _ ih ih' ih'' =>
    rw [← dropNewlines_renumber] at ih'
    exact .conditional ht ih ih' ih''
  | branchElif hd _ ih => exact .branchElif hd ih
  | branchElse _ hend ih =>
    rw [← dropNewlines_renumber] at ih
    exact .branchElse ih (hend.renumber g)
  | branchNone hend => exact .branchNone (hend.renumber g)
  | programNil h => exact .programNil (by rwa [headMark_renumber])
  | programCons _ _ ih ih' =>
    rw [← dropNewlines_renumber] at ih'
    exact .programCons ih ih'

/-! ## Texts -/

section

variable (child : Option (List Char → List Spanned)) (parseFloat : String → Option UInt64)

theorem nextToken_shift (text : List Char) (line k : Nat) :
    nextToken child parseFloat text (line + k) =
      ((nextToken child parseFloat text line).1.renumber (· + k),
        (nextToken child parseFloat text line).2.1,
        (nextToken child parseFloat text line).2.2 + k) := by
  rw [nextToken, nextToken]
  cases skipBlank text with
  | nil => rfl
  | cons c rest =>
    dsimp only
    split_ifs
    · simp [Spanned.renumber, Nat.add_right_comm]
    · rfl

/-- From a later line on, the tokens stand on later lines. -/
theorem tokensFrom_shift (text : List Char) (line k : Nat) :
    tokensFrom child parseFloat text (line + k) =
      (tokensFrom child parseFloat text line).map (Spanned.renumber (· + k)) := by
  unfold tokensFrom
  generalize text.length + 1 = fuel
  induction fuel generalizing text line with
  | zero => rfl
  | succ fuel ih =>
    rw [tokenizeLoop, tokenizeLoop, nextToken_shift]
    dsimp only
    rw [renumber_token]
    split_ifs
    · rfl
    · rw [List.map_cons, ih]

theorem renumber_back (k : Nat) (ts : List Spanned) :
    (ts.map (Spanned.renumber (· + k))).map (Spanned.renumber (· - k)) = ts := by
  rw [List.map_map]
  refine (List.map_congr_left fun t _ => ?_).trans (List.map_id ts)
  cases t
  simp [Spanned.renumber]

end

/-- A text that is derived from a later line on is accepted by itself, from the first line on. -/
theorem parse_renumber {parseFloat : String → Option UInt64} {text : List Char} {k : Nat}
    {stmts : Program} {r : List Spanned} (hheight : stmtsHeight stmts ≤ maxAstDepth)
    (h : Derives 0 false (.program stmts) (dropNewlines
      (tokensFrom (lexerChild parseFloat maxAstDepth) parseFloat text (1 + k))) r) :
    parse (tokenize parseFloat text) = .accepted (stmtsRenumber (· - k) stmts) := by
  have hback := derives_renumber (· - k) h
  rw [← dropNewlines_renumber, tokensFrom_shift, renumber_back, ← tokenize_tokensFrom] at hback
  refine parse_complete ⟨⟨_, hback⟩, ?_⟩
  rw [stmtsExcessiveDepthLine_eq_none (by decide), stmtsRenumber_height]
  omega

end Tsumugi.Syntax
