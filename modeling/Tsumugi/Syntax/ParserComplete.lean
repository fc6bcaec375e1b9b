import Tsumugi.Syntax.GrammarLaw
import Tsumugi.Syntax.Height
import Tsumugi.Syntax.ParserLaw

/-!
# The parser finds every derivation

Each parse function returns what its phrase derives, from the tokens that the phrase
begins at to those that follow it, if these cannot continue the phrase. A level of
precedence, and a call, goes on with its loop from there, so that nothing need be known
of what follows but that it binds no tighter.

Result: `parse_complete`: a program that is derived is accepted, with that tree.
-/

namespace Tsumugi.Syntax

open Proc

/-- From `ts` the function returns `a` and leaves `r`, with no error. -/
def Parses {α : Type} (m : P α) (a : α) (ts r : List Spanned) : Prop :=
  ∀ errors, m.run ⟨ts, errors⟩ = (.ok a, ⟨r, errors⟩)

/-- From `ts` one function does what another one does from `r`. -/
def Resumes {α : Type} (m m' : P α) (ts r : List Spanned) : Prop :=
  ∀ errors, m.run ⟨ts, errors⟩ = m'.run ⟨r, errors⟩

variable {α β γ : Type}

theorem parses_pure (a : α) (ts : List Spanned) : Parses (pure a) a ts ts := fun _ => rfl

theorem Parses.bind {m : P α} {f : α → P β} {a : α} {b : β} {ts mid r : List Spanned}
    (h : Parses m a ts mid) (h' : Parses (f a) b mid r) : Parses (m >>= f) b ts r :=
  fun errors => by rw [bind_run_ok (h errors), h' errors]

theorem Resumes.parses {m m' : P α} {a : α} {ts mid r : List Spanned} (h : Resumes m m' ts mid)
    (h' : Parses m' a mid r) : Parses m a ts r := fun errors => by rw [h errors, h' errors]

theorem Parses.resumes {m : P α} {f : α → P β} {a : α} {ts mid : List Spanned}
    (h : Parses m a ts mid) : Resumes (m >>= f) (f a) ts mid :=
  fun errors => bind_run_ok (h errors)

theorem Resumes.trans {m m' m'' : P α} {ts mid r : List Spanned} (h : Resumes m m' ts mid)
    (h' : Resumes m' m'' mid r) : Resumes m m'' ts r := fun errors => by rw [h errors, h' errors]

/-! ## Small functions -/

theorem parses_advance (t : Spanned) (r : List Spanned) : Parses advance () (t :: r) r :=
  fun _ => rfl

theorem parses_peekMark (ts : List Spanned) : Parses peekMark (headMark ts) ts ts := fun _ => rfl

theorem parses_peekToken (ts : List Spanned) : Parses peekToken (headToken ts) ts ts :=
  fun _ => rfl

theorem parses_currentLine (ts : List Spanned) : Parses currentLine (headLine ts) ts ts :=
  fun _ => rfl

theorem parses_expect (m : Mark) (l : Nat) (r : List Spanned) :
    Parses (expect m) () (tok m l :: r) r := by
  refine (show Parses advanceSpanned (tok m l) (tok m l :: r) r from fun _ => rfl).bind ?_
  rw [if_pos (by rfl)]
  exact parses_pure () r

theorem parses_expectName (place : NamePlace) (name : String) (l : Nat) (r : List Spanned) :
    Parses (expectName place) name (.mk (.ident name) l :: r) r := fun _ => rfl

theorem parses_takeName (name : String) (l : Nat) (r : List Spanned) :
    Parses takeName name (.mk (.ident name) l :: r) r := fun _ => rfl

theorem parses_expectNewline (l : Nat) (r : List Spanned) :
    Parses expectNewline () (tok .newline l :: r) r := fun _ => rfl

theorem headToken_of_headMark {ts : List Spanned} {m : Mark} (h : headMark ts = some m) :
    headToken ts = .mark m := Token.mark?_eq_some.1 h

theorem parses_expectNewlineOrEof {ts r : List Spanned} (h : LineEnd ts r) :
    Parses expectNewlineOrEof () ts r := by
  cases h with
  | newline => exact fun _ => rfl
  | eof h =>
    refine (parses_currentLine ts).bind ((parses_peekToken ts).bind ?_)
    rw [headToken_of_headMark h]
    exact parses_pure () ts

/-! ## Loops -/

/-- A loop that has made its last round. -/
theorem parses_loopDone {step : β → P (β ⊕ γ)} (hstep : TakesRounds step) {b : β} {c : γ}
    {ts r : List Spanned} (h : Parses (step b) (.inr c) ts r) : Parses (tokenLoop step b) c ts r := by
  intro errors
  rw [tokenLoop, loop_run hstep, bind_run_ok (h errors)]
  rfl

/-- A loop that goes on. -/
theorem resumes_loop {step : β → P (β ⊕ γ)} (hstep : TakesRounds step) {b b' : β}
    {ts mid : List Spanned} (h : Parses (step b) (.inl b') ts mid) :
    Resumes (tokenLoop step b) (tokenLoop step b') ts mid := by
  intro errors
  rw [tokenLoop, loop_run hstep, bind_run_ok (h errors)]
  rfl

theorem parses_skipNewlines (ts : List Spanned) :
    Parses skipNewlines () ts (dropNewlines ts) := by
  induction ts with
  | nil => exact parses_loopDone takesRounds_skip fun _ => rfl
  | cons t ts ih =>
    by_cases h : t.token.mark? = some .newline
    · rw [dropNewlines, List.dropWhile_cons_of_pos (by simpa using h), ← dropNewlines]
      refine (resumes_loop takesRounds_skip ?_).parses ih
      refine (parses_peekMark _).bind ?_
      rw [headMark_cons, if_pos h]
      exact fun _ => rfl
    · rw [dropNewlines, List.dropWhile_cons_of_neg (by simpa using h)]
      refine parses_loopDone takesRounds_skip ((parses_peekMark _).bind ?_)
      rw [headMark_cons, if_neg h]
      exact parses_pure _ _

/-- The line break after a header, and the blank lines after it. -/
theorem parses_header {f : Unit → P β} {b : β} {l : Nat} {ts r : List Spanned}
    (h : Parses (f ()) b (dropNewlines ts) r) :
    Parses (expectNewline >>= fun _ => skipNewlines >>= f) b (tok .newline l :: ts) r :=
  (parses_expectNewline l ts).bind ((parses_skipNewlines ts).bind h)

/-- The end of a block and of its statement. -/
theorem parses_footer (a : α) {l : Nat} {ts r : List Spanned} (h : LineEnd ts r) :
    Parses (expect .«end» >>= fun _ => expectNewlineOrEof >>= fun _ => pure a) a
      (tok .«end» l :: ts) r :=
  (parses_expect _ l ts).bind ((parses_expectNewlineOrEof h).bind (parses_pure a r))

/-! ## Limits -/

theorem parses_checkExprDepth {e : Expr} (h : e.height ≤ maxAstDepth) (line : Nat)
    (ts : List Spanned) : Parses (checkExprDepth e line) e ts ts := by
  have hfits : exprDepthExceedsLimit e = false := by
    rw [exprDepthExceedsLimit, (Expr.excessiveDepthLine_eq_none e).2 (by omega)]
    rfl
  rw [checkExprDepth, if_neg (by simp [hfits])]
  exact parses_pure e ts

theorem parses_checkStmtDepth {s : Stmt} (h : s.height ≤ maxAstDepth) (ts : List Spanned) :
    Parses (checkStmtDepth s) s ts ts := by
  have hfits : stmtDepthExceedsLimit s = false := by
    rw [stmtDepthExceedsLimit, (Stmt.excessiveDepthLine_eq_none s).2 (by omega)]
    rfl
  rw [checkStmtDepth, if_neg (by simp [hfits])]
  exact parses_pure s ts

theorem parses_withParseDepth {ctx : Ctx} {expression : Bool} {parse : Ctx → P α} {a : α}
    {ts r : List Spanned} (hd : ctx.depth < maxAstDepth)
    (h : Parses (parse { ctx with depth := ctx.depth + 1 }) a ts r) :
    Parses (withParseDepth ctx expression parse) a ts r := by
  rw [withParseDepth, if_neg (by omega)]
  exact h

/-! ## What can follow a phrase -/

/-- How tight a level of precedence binds. -/
def Prec.rank : Prec → Nat
  | .or => 0
  | .and => 1
  | .comparison => 2
  | .addSub => 3
  | .mulDiv => 4

/-- What is left neither calls nor indexes the expression before it, and goes on with no
operator of the rank or a tighter one. -/
def Ended (rank : Nat) (r : List Spanned) : Prop :=
  ∀ m, headMark r = some m →
    m ≠ .lParen ∧ m ≠ .lBracket ∧ ∀ p : Prec, rank ≤ p.rank → p.ops m = none

/-- The marks that can follow an expression. -/
def Mark.endsExpr (m : Mark) : Bool :=
  m ∈ [.rParen, .rBracket, .rBrace, .comma, .colon, .newline, .eof, .«end»]

theorem ended_of_mark {m : Mark} {r : List Spanned} {rank : Nat} (h : headMark r = some m)
    (hm : m.endsExpr = true) : Ended rank r := by
  intro m' hm'
  rw [h, Option.some.injEq] at hm'
  subst hm'
  refine ⟨fun h => ?_, fun h => ?_, fun p _ => ?_⟩
  · rw [h] at hm
    cases hm
  · rw [h] at hm
    cases hm
  · cases m <;> first | (cases p <;> rfl) | cases hm

theorem Ended.mono {rank rank' : Nat} {r : List Spanned} (h : Ended rank r) (hle : rank ≤ rank') :
    Ended rank' r :=
  fun m hm => ⟨(h m hm).1, (h m hm).2.1, fun p hp => (h m hm).2.2 p (Nat.le_trans hle hp)⟩

theorem LineEnd.ended {ts r : List Spanned} (h : LineEnd ts r) (rank : Nat) : Ended rank ts := by
  rcases h.headMark with hmark | hmark <;> exact ended_of_mark hmark rfl

/-- The level of a binary operator. -/
def Mark.prec? : Mark → Option Prec
  | .or => some .or
  | .and => some .and
  | .eq | .notEq | .lt | .gt | .ltEq | .gtEq => some .comparison
  | .plus | .minus => some .addSub
  | .star | .slash | .percent => some .mulDiv
  | _ => none

theorem ops_prec {p : Prec} {m : Mark} {op : BinOpKind} (h : p.ops m = some op) :
    m.prec? = some p := by
  cases p <;> cases m <;> first | rfl | cases h

theorem ops_opens {p : Prec} {m : Mark} {op : BinOpKind} (h : p.ops m = some op) :
    m ≠ .lParen ∧ m ≠ .lBracket := by
  cases p <;> cases m <;> first | decide | cases h

/-- Before an operator of a level the operands of that level end. -/
theorem ended_op {p : Prec} {m : Mark} {op : BinOpKind} (h : p.ops m = some op) (l : Nat)
    (r : List Spanned) : Ended (p.rank + 1) (tok m l :: r) := by
  intro m' hm'
  rw [headMark_cons, Spanned.token_mk, mark?_mark, Option.some.injEq] at hm'
  subst hm'
  refine ⟨(ops_opens h).1, (ops_opens h).2, fun q hq => ?_⟩
  cases hop : q.ops m with
  | none => rfl
  | some op' =>
    have hpq : some p = some q := (ops_prec h).symm.trans (ops_prec hop)
    cases hpq
    omega

/-! ## Expressions -/

/-- The parse function of a level of precedence. -/
def parsePrec (sub : Level) (ctx : Ctx) : Prec → P Expr
  | .or => parseOr sub ctx
  | .and => parseAnd sub ctx
  | .comparison => parseComparison sub ctx
  | .addSub => parseAddSub sub ctx
  | .mulDiv => parseMulDiv sub ctx

/-- The parse function of its operands. -/
def parseOperand (sub : Level) (ctx : Ctx) : Prec → P Expr
  | .or => parseAnd sub ctx
  | .and => parseComparison sub ctx
  | .comparison => parseAddSub sub ctx
  | .addSub => parseMulDiv sub ctx
  | .mulDiv => parseUnary sub ctx

theorem parsePrec_eq (sub : Level) (ctx : Ctx) (p : Prec) :
    parsePrec sub ctx p = leftAssoc p.ops (parseOperand sub ctx p) := by cases p <;> rfl

section

variable {sub : Level} {ctx : Ctx} (h : ctx.depth < maxAstDepth → sub.Runs (ctx.depth + 1))

theorem parses_parseExpr {e : Expr} {ts r : List Spanned} (hd : ctx.depth < maxAstDepth)
    (he : e.height ≤ maxAstDepth)
    (hor : Parses (sub.parseOr { ctx with depth := ctx.depth + 1 }) e ts r) :
    Parses (parseExpr sub ctx) e ts r :=
  (parses_currentLine ts).bind ((parses_withParseDepth hd hor).bind (parses_checkExprDepth he _ r))

theorem reads_parseOperand (p : Prec) (h : ctx.depth < maxAstDepth → sub.Runs (ctx.depth + 1)) :
    Reads (parseOperand sub ctx p) := by
  cases p
  case or => exact reads_leftAssoc rfl <| reads_leftAssoc rfl <| reads_leftAssoc rfl <|
    reads_leftAssoc rfl <| reads_parseUnary h
  case and => exact reads_leftAssoc rfl <| reads_leftAssoc rfl <| reads_leftAssoc rfl <|
    reads_parseUnary h
  case comparison => exact reads_leftAssoc rfl <| reads_leftAssoc rfl <| reads_parseUnary h
  case addSub => exact reads_leftAssoc rfl <| reads_parseUnary h
  case mulDiv => exact reads_parseUnary h

theorem ops_eof (p : Prec) : p.ops .eof = none := by cases p <;> rfl

/-- The loop of a level of precedence. -/
abbrev operandLoop (sub : Level) (ctx : Ctx) (p : Prec) (e : Expr) : P Expr :=
  tokenLoop (operandStep p.ops (parseOperand sub ctx p)) e

theorem takesRounds_operandLoop (p : Prec)
    (h : ctx.depth < maxAstDepth → sub.Runs (ctx.depth + 1)) :
    TakesRounds (operandStep p.ops (parseOperand sub ctx p)) :=
  takesRounds_operandStep (ops_eof p) (reads_parseOperand p h).framed

include h

/-- Without an operator the loop ends. -/
theorem parses_operandDone {p : Prec} {e : Expr} {r : List Spanned} (hr : Ended p.rank r) :
    Parses (operandLoop sub ctx p e) e r r := by
  refine parses_loopDone (takesRounds_operandLoop p h) ((parses_peekMark r).bind ?_)
  have hnone : (headMark r).bind p.ops = none := by
    cases hm : headMark r with
    | none => rfl
    | some m => exact (hr m hm).2.2 p (Nat.le_refl _)
  rw [hnone]
  exact parses_pure _ r

theorem resumes_operation {p : Prec} {left right : Expr} {op : BinOpKind} {m : Mark} {l : Nat}
    {mid r : List Spanned} (hop : p.ops m = some op)
    (he : (Expr.binOp left op right).height ≤ maxAstDepth)
    (hright : Parses (parseOperand sub ctx p) right mid r) :
    Resumes (operandLoop sub ctx p left) (operandLoop sub ctx p (.binOp left op right))
      (tok m l :: mid) r := by
  refine resumes_loop (takesRounds_operandLoop p h) ((parses_peekMark _).bind ?_)
  rw [headMark_cons, Spanned.token_mk, mark?_mark, Option.bind_some, hop]
  exact (parses_advance _ mid).bind (hright.bind ((parses_currentLine r).bind
    ((parses_checkExprDepth he _ r).bind (parses_pure _ r))))

theorem parses_unaryCall {e : Expr} {ts r : List Spanned}
    (hcall : Resumes (parseCall sub ctx) (tokenLoop (callStep sub ctx) e) ts r)
    (hts : headMark ts ≠ some .not ∧ headMark ts ≠ some .minus) (hr : Ended 5 r) :
    Parses (parseUnary sub ctx) e ts r := by
  refine (parses_peekMark ts).bind ?_
  split
  · next hm => exact absurd hm hts.1
  · next hm => exact absurd hm hts.2
  · refine hcall.parses (parses_loopDone (takesRounds_callStep h) ?_)
    refine (parses_currentLine r).bind ((parses_peekMark r).bind ?_)
    split
    · next hm => exact absurd rfl (hr _ hm).1
    · next hm => exact absurd rfl (hr _ hm).2.1
    · exact parses_pure _ r

omit h in
theorem parses_unaryOp {op : UnaryOpKind} {e : Expr} {m : Mark} {l : Nat} {ts r : List Spanned}
    (hd : ctx.depth < maxAstDepth) (hop : unaryOps m = some op)
    (he : (Expr.unaryOp op e).height ≤ maxAstDepth)
    (hunary : Parses (sub.parseUnary { ctx with depth := ctx.depth + 1 }) e ts r) :
    Parses (parseUnary sub ctx) (.unaryOp op e) (tok m l :: ts) r := by
  have hrun : Parses (unaryOperation sub ctx op) (.unaryOp op e) (tok m l :: ts) r :=
    (parses_currentLine _).bind ((parses_advance _ ts).bind
      ((parses_withParseDepth hd hunary).bind (parses_checkExprDepth he _ r)))
  refine (parses_peekMark _).bind ?_
  cases m <;> cases hop <;> exact hrun

omit h in
theorem resumes_callPrimary {e : Expr} {ts r : List Spanned}
    (hprimary : Parses (parsePrimary sub ctx) e ts r) :
    Resumes (parseCall sub ctx) (tokenLoop (callStep sub ctx) e) ts r := hprimary.resumes

theorem resumes_callArgs {callee : Expr} {args : List Expr} {l l' : Nat} {mid r : List Spanned}
    (he : (Expr.call callee args).height ≤ maxAstDepth)
    (hargs : Parses (parseArgs sub ctx) args mid (tok .rParen l' :: r)) :
    Resumes (tokenLoop (callStep sub ctx) callee) (tokenLoop (callStep sub ctx) (.call callee args))
      (tok .lParen l :: mid) r :=
  resumes_loop (takesRounds_callStep h) <| (parses_currentLine _).bind <|
    (parses_peekMark _).bind <| (parses_advance _ mid).bind <| hargs.bind <|
      (parses_expect _ l' r).bind <| (parses_checkExprDepth he _ r).bind (parses_pure _ r)

theorem resumes_callIndex {object idx : Expr} {l l' : Nat} {mid r : List Spanned}
    (he : (Expr.index object idx).height ≤ maxAstDepth)
    (hidx : Parses (parseExpr sub ctx) idx mid (tok .rBracket l' :: r)) :
    Resumes (tokenLoop (callStep sub ctx) object) (tokenLoop (callStep sub ctx) (.index object idx))
      (tok .lBracket l :: mid) r :=
  resumes_loop (takesRounds_callStep h) <| (parses_currentLine _).bind <|
    (parses_peekMark _).bind <| (parses_advance _ mid).bind <| hidx.bind <|
      (parses_expect _ l' r).bind <| (parses_checkExprDepth he _ r).bind (parses_pure _ r)

/-! ### Lists of expressions -/

omit h in
theorem parses_argsNil (l : Nat) (r : List Spanned) :
    Parses (parseArgs sub ctx) [] (tok .rParen l :: r) (tok .rParen l :: r) := fun _ => rfl

omit h in
theorem parses_argsCons {e : Expr} {es : List Expr} {ts mid r : List Spanned}
    (hts : headMark ts ≠ some .rParen) (he : Parses (parseExpr sub ctx) e ts mid)
    (hmore : Parses (tokenLoop (moreArgs sub ctx) [e]) es mid r) :
    Parses (parseArgs sub ctx) es ts r := by
  refine (parses_peekMark ts).bind ?_
  rw [if_neg hts]
  exact he.bind hmore

/-- The loop over the rest of a list of expressions. -/
def moreExprs (sub : Level) (ctx : Ctx) (literal : Bool) (es : List Expr) : P (List Expr) :=
  if literal then tokenLoop (moreItems sub ctx) es else tokenLoop (moreArgs sub ctx) es

theorem parses_moreNil {literal : Bool} {es : List Expr} {r : List Spanned}
    (hr : headMark r ≠ some .comma) : Parses (moreExprs sub ctx literal es) es r r := by
  cases literal
  · refine parses_loopDone (takesRounds_moreArgs h) ((parses_peekMark r).bind ?_)
    rw [if_neg hr]
    exact parses_pure _ r
  · refine parses_loopDone (takesRounds_moreItems h) ((parses_peekMark r).bind ?_)
    rw [if_neg hr]
    exact parses_pure _ r

theorem parses_moreTrailing {es : List Expr} {l l' : Nat} {r : List Spanned} :
    Parses (moreExprs sub ctx true es) es (tok .comma l :: tok .rBracket l' :: r)
      (tok .rBracket l' :: r) :=
  parses_loopDone (takesRounds_moreItems h) fun _ => rfl

theorem resumes_moreCons {literal : Bool} {e : Expr} {es : List Expr} {l : Nat}
    {ts mid : List Spanned} (hts : headMark ts ≠ some .rBracket)
    (he : Parses (parseExpr sub ctx) e ts mid) :
    Resumes (moreExprs sub ctx literal es) (moreExprs sub ctx literal (es ++ [e]))
      (tok .comma l :: ts) mid := by
  cases literal
  · exact resumes_loop (takesRounds_moreArgs h) <| (parses_peekMark _).bind <|
      (parses_advance _ ts).bind <| he.bind (parses_pure _ mid)
  · refine resumes_loop (takesRounds_moreItems h) ((parses_peekMark _).bind ?_)
    refine (parses_advance _ ts).bind ((parses_peekMark ts).bind ?_)
    rw [if_neg hts]
    exact he.bind (parses_pure _ mid)

omit h in
theorem parses_pair {k v : Expr} {l : Nat} {ts mid r : List Spanned}
    (hk : Parses (parseExpr sub ctx) k ts (tok .colon l :: mid))
    (hv : Parses (parseExpr sub ctx) v mid r) : Parses (parsePair sub ctx) (k, v) ts r :=
  hk.bind ((parses_expect _ l mid).bind (hv.bind (parses_pure _ r)))

theorem parses_pairsNil {ps : List (Expr × Expr)} {r : List Spanned}
    (hr : headMark r ≠ some .comma) : Parses (tokenLoop (morePairs sub ctx) ps) ps r r := by
  refine parses_loopDone (takesRounds_morePairs h) ((parses_peekMark r).bind ?_)
  rw [if_neg hr]
  exact parses_pure _ r

theorem parses_pairsTrailing {ps : List (Expr × Expr)} {l l' : Nat} {r : List Spanned} :
    Parses (tokenLoop (morePairs sub ctx) ps) ps (tok .comma l :: tok .rBrace l' :: r)
      (tok .rBrace l' :: r) :=
  parses_loopDone (takesRounds_morePairs h) fun _ => rfl

theorem resumes_pairsCons {p : Expr × Expr} {ps : List (Expr × Expr)} {l : Nat}
    {ts mid : List Spanned} (hts : headMark ts ≠ some .rBrace)
    (hp : Parses (parsePair sub ctx) p ts mid) :
    Resumes (tokenLoop (morePairs sub ctx) ps) (tokenLoop (morePairs sub ctx) (ps ++ [p]))
      (tok .comma l :: ts) mid := by
  refine resumes_loop (takesRounds_morePairs h) ((parses_peekMark _).bind ?_)
  refine (parses_advance _ ts).bind ((parses_peekMark ts).bind ?_)
  rw [if_neg hts]
  exact hp.bind (parses_pure _ mid)

/-! ### Primaries -/

omit h in
theorem parses_print {args : List Expr} {l l' l'' : Nat} {ts r : List Spanned}
    (he : (Expr.call (.ident "print") args).height ≤ maxAstDepth)
    (hargs : Parses (parseArgs sub ctx) args ts (tok .rParen l'' :: r)) :
    Parses (parsePrimary sub ctx) (.call (.ident "print") args)
      (tok .print l :: tok .lParen l' :: ts) r :=
  (parses_currentLine _).bind <| (parses_peekToken _).bind <| (parses_advance _ _).bind <|
    (parses_expect _ l' ts).bind <| hargs.bind <| (parses_expect _ l'' r).bind <|
      parses_checkExprDepth he _ r

omit h in
theorem parses_paren {e : Expr} {l l' : Nat} {ts r : List Spanned}
    (he : Parses (parseExpr sub ctx) e ts (tok .rParen l' :: r)) :
    Parses (parsePrimary sub ctx) e (tok .lParen l :: ts) r :=
  (parses_currentLine _).bind <| (parses_peekToken _).bind <| (parses_advance _ ts).bind <|
    he.bind <| (parses_expect _ l' r).bind (parses_pure e r)

omit h in
theorem parses_list {e : Expr} {es : List Expr} {l l' : Nat} {ts mid r : List Spanned}
    (hts : headMark ts ≠ some .rBracket) (he : (Expr.list es).height ≤ maxAstDepth)
    (hfirst : Parses (parseExpr sub ctx) e ts mid)
    (hmore : Parses (moreExprs sub ctx true [e]) es mid (tok .rBracket l' :: r)) :
    Parses (parsePrimary sub ctx) (.list es) (tok .lBracket l :: ts) r := by
  refine (parses_currentLine _).bind ((parses_peekToken _).bind ?_)
  refine (parses_advance _ ts).bind ((parses_peekMark ts).bind ?_)
  rw [if_neg hts]
  exact hfirst.bind <| hmore.bind <| (parses_expect _ l' r).bind <|
    (parses_currentLine r).bind (parses_checkExprDepth he _ r)

omit h in
theorem parses_dict {p : Expr × Expr} {ps : List (Expr × Expr)} {l l' : Nat}
    {ts mid r : List Spanned} (hts : headMark ts ≠ some .rBrace)
    (he : (Expr.dict ps).height ≤ maxAstDepth) (hfirst : Parses (parsePair sub ctx) p ts mid)
    (hmore : Parses (tokenLoop (morePairs sub ctx) [p]) ps mid (tok .rBrace l' :: r)) :
    Parses (parsePrimary sub ctx) (.dict ps) (tok .lBrace l :: ts) r := by
  refine (parses_currentLine _).bind ((parses_peekToken _).bind ?_)
  refine (parses_advance _ ts).bind ((parses_peekMark ts).bind ?_)
  rw [if_neg hts]
  exact hfirst.bind <| hmore.bind <| (parses_expect _ l' r).bind <|
    (parses_currentLine r).bind (parses_checkExprDepth he _ r)

/-! ### f-strings -/

omit h in
theorem parses_inFString {m : P α} {a : α} {line : Nat} {tokens r : List Spanned}
    (hm : Parses m a (closePart line tokens) r) (hr : headMark r = some .eof)
    (ts : List Spanned) : Parses (inFString line tokens m) a ts ts := by
  intro errors
  simp only [inFString, hm []]
  exact if_pos hr

omit h in
theorem parses_partsLiteral {line : Nat} {s : String} {parts : List FStrPart}
    {result : List FStrExprPart} {ts : List Spanned}
    (hmore : Parses (parseParts sub ctx line parts) result ts ts) :
    Parses (parseParts sub ctx line (.literal s :: parts)) (.literal s :: result) ts ts :=
  hmore.bind (parses_pure _ ts)

omit h in
theorem parses_partsExpr {line : Nat} {tokens r : List Spanned} {e : Expr}
    {parts : List FStrPart} {result : List FStrExprPart} {ts : List Spanned}
    (he : Parses (parseExpr sub { ctx with fnDepth := 0 }) e (closePart line tokens) r)
    (hr : headMark r = some .eof) (hmore : Parses (parseParts sub ctx line parts) result ts ts) :
    Parses (parseParts sub ctx line (.expr tokens :: parts)) (.expr e :: result) ts ts :=
  (parses_inFString he hr ts).bind (hmore.bind (parses_pure _ ts))

omit h in
theorem parses_fStr {parts : List FStrPart} {result : List FStrExprPart} {l : Nat}
    {r : List Spanned} (he : (Expr.fStr result).height ≤ maxAstDepth)
    (hparts : Parses (parseParts sub ctx l parts) result r r) :
    Parses (parsePrimary sub ctx) (.fStr result) (.mk (.fStr parts) l :: r) r :=
  (parses_currentLine _).bind <| (parses_peekToken _).bind <| (parses_advance _ r).bind <|
    hparts.bind (parses_checkExprDepth he l r)

/-! ### Parameters and lambdas -/

omit h in
theorem parses_paramsNil (l : Nat) (r : List Spanned) :
    Parses parseParams [] (tok .rParen l :: r) (tok .rParen l :: r) := fun _ => rfl

omit h in
theorem parses_paramsCons {name : String} {names : List String} {l : Nat} {ts r : List Spanned}
    (hmore : Parses (tokenLoop moreParams [name]) names ts r) :
    Parses parseParams names (.mk (.ident name) l :: ts) r :=
  (parses_peekMark _).bind ((parses_expectName _ name l ts).bind hmore)

omit h in
theorem parses_moreParamsNil {names : List String} {r : List Spanned}
    (hr : headMark r ≠ some .comma) : Parses (tokenLoop moreParams names) names r r := by
  refine parses_loopDone takesRounds_moreParams ((parses_peekMark r).bind ?_)
  rw [if_neg hr]
  exact parses_pure _ r

omit h in
theorem resumes_moreParamsCons {names : List String} {name : String} {l l' : Nat}
    {ts : List Spanned} :
    Resumes (tokenLoop moreParams names) (tokenLoop moreParams (names ++ [name]))
      (tok .comma l :: .mk (.ident name) l' :: ts) ts :=
  resumes_loop takesRounds_moreParams fun _ => rfl

omit h in
theorem parses_lambdaBlock {params : List String} {body : Block} {l l₁ l₂ l₃ l₄ : Nat}
    {ts mid r : List Spanned} (he : (Expr.lambda params body).height ≤ maxAstDepth)
    (hparams : Parses parseParams params ts (tok .rParen l₂ :: tok .newline l₃ :: mid))
    (hbody : Parses (parseBlock sub { ctx with fnDepth := ctx.fnDepth + 1 } [.«end»]) body mid
      (tok .«end» l₄ :: r)) :
    Parses (parseAnonymousFn sub ctx) (.lambda params body)
      (tok .fn l :: tok .lParen l₁ :: ts) r :=
  (parses_currentLine _).bind <| (parses_advance _ _).bind <| (parses_expect _ l₁ ts).bind <|
    hparams.bind <| (parses_expect _ l₂ _).bind <| (parses_peekMark _).bind <|
      (parses_advance _ mid).bind <| hbody.bind <| (parses_expect _ l₄ r).bind <|
        parses_checkExprDepth he _ r

omit h in
theorem parses_lambdaExpr {params : List String} {e : Expr} {l l₁ l₂ l₃ : Nat}
    {ts mid r : List Spanned}
    (he : (Expr.lambda params [.«return» e (headLine mid)]).height ≤ maxAstDepth)
    (hmid : headMark mid ≠ some .newline)
    (hparams : Parses parseParams params ts (tok .rParen l₂ :: mid))
    (hbody : Parses (parseExpr sub ctx) e (afterReturn mid) (tok .«end» l₃ :: r)) :
    Parses (parseAnonymousFn sub ctx) (.lambda params [.«return» e (headLine mid)])
      (tok .fn l :: tok .lParen l₁ :: ts) r := by
  refine (parses_currentLine _).bind <| (parses_advance _ _).bind <|
    (parses_expect _ l₁ ts).bind <| hparams.bind <| (parses_expect _ l₂ _).bind <|
      (parses_peekMark mid).bind ?_
  rw [if_neg hmid]
  refine (parses_currentLine mid).bind ((parses_peekMark mid).bind ?_)
  have hrest : Parses (parseExpr sub ctx >>= fun e => expect .«end» >>= fun _ =>
      checkExprDepth (.lambda params [.«return» e (headLine mid)]) l)
      (.lambda params [.«return» e (headLine mid)]) (afterReturn mid) r :=
    hbody.bind ((parses_expect _ l₃ r).bind (parses_checkExprDepth he l r))
  unfold afterReturn at hrest
  split
  · next hreturn =>
    rw [if_pos hreturn] at hrest
    exact (show Parses advance () mid mid.tail from fun _ => rfl).bind hrest
  · next hreturn =>
    rw [if_neg hreturn] at hrest
    exact hrest

/-! ### Blocks and statements -/

omit h in
theorem parses_parseStmt {top : Bool} {s : Stmt} {ts r : List Spanned}
    (hd : ctx.depth < maxAstDepth) (hs : s.height ≤ maxAstDepth)
    (hform : Parses (sub.parseStmtInner top { ctx with depth := ctx.depth + 1 }) s ts r) :
    Parses (parseStmt sub ctx top) s ts r :=
  (parses_withParseDepth hd hform).bind (parses_checkStmtDepth hs r)

theorem parses_blockNil {terminators : List Mark} {stmts : Block} {r : List Spanned}
    (hr : headMark r = some .eof ∨ ∃ m ∈ terminators, headMark r = some m) :
    Parses (tokenLoop (blockStep sub ctx terminators) stmts) stmts r r := by
  refine parses_loopDone (takesRounds_blockStep h terminators) ((parses_peekMark r).bind ?_)
  rw [if_pos hr]
  exact parses_pure _ r

theorem resumes_blockCons {terminators : List Mark} {stmts : Block} {s : Stmt}
    {ts mid : List Spanned}
    (hts : ¬ (headMark ts = some .eof ∨ ∃ m ∈ terminators, headMark ts = some m))
    (himport : headMark ts ≠ some .«import»)
    (hreturn : ¬ (ctx.fnDepth = 0 ∧ headMark ts = some .«return»))
    (hs : Parses (parseStmt sub ctx false) s ts mid) :
    Resumes (tokenLoop (blockStep sub ctx terminators) stmts)
      (tokenLoop (blockStep sub ctx terminators) (stmts ++ [s])) ts (dropNewlines mid) := by
  refine resumes_loop (takesRounds_blockStep h terminators) ((parses_peekMark ts).bind ?_)
  rw [if_neg hts, if_neg himport, if_neg hreturn]
  exact hs.bind ((parses_skipNewlines mid).bind (parses_pure _ _))

omit h in
theorem parses_let {name : String} {e : Expr} {l l₁ l₂ : Nat} {ts mid r : List Spanned}
    (he : Parses (parseExpr sub ctx) e ts mid) (hend : LineEnd mid r) :
    Parses (parseLet sub ctx) (.«let» name e l)
      (tok .«let» l :: .mk (.ident name) l₁ :: tok .assign l₂ :: ts) r :=
  (parses_currentLine _).bind <| (parses_advance _ _).bind <|
    (parses_expectName _ name l₁ _).bind <| (parses_expect _ l₂ ts).bind <| he.bind <|
      (parses_expectNewlineOrEof hend).bind (parses_pure _ r)

omit h in
theorem parses_assign {name : String} {e : Expr} {l l₁ : Nat} {ts mid r : List Spanned}
    (he : Parses (parseExpr sub ctx) e ts mid) (hend : LineEnd mid r) :
    Parses (parseAssign sub ctx) (.assign name e l)
      (.mk (.ident name) l :: tok .assign l₁ :: ts) r :=
  (parses_currentLine _).bind <| (parses_takeName name l _).bind <| (parses_advance _ ts).bind <|
    he.bind <| (parses_expectNewlineOrEof hend).bind (parses_pure _ r)

omit h in
theorem parses_indexAssign {name : String} {idx e : Expr} {l l₁ l₂ l₃ : Nat}
    {ts mid mid' r : List Spanned}
    (hidx : Parses (parseExpr sub ctx) idx ts (tok .rBracket l₂ :: tok .assign l₃ :: mid))
    (he : Parses (parseExpr sub ctx) e mid mid') (hend : LineEnd mid' r) :
    Parses (parseIndexAssign sub ctx) (.indexAssign name idx e l)
      (.mk (.ident name) l :: tok .lBracket l₁ :: ts) r :=
  (parses_currentLine _).bind <| (parses_takeName name l _).bind <| (parses_expect _ l₁ ts).bind <|
    hidx.bind <| (parses_expect _ l₂ _).bind <| (parses_expect _ l₃ mid).bind <| he.bind <|
      (parses_expectNewlineOrEof hend).bind (parses_pure _ r)

omit h in
theorem parses_return {e : Expr} {l : Nat} {ts mid r : List Spanned}
    (he : Parses (parseExpr sub ctx) e ts mid) (hend : LineEnd mid r) :
    Parses (parseReturn sub ctx) (.«return» e l) (tok .«return» l :: ts) r :=
  (parses_currentLine _).bind <| (parses_advance _ ts).bind <| he.bind <|
    (parses_expectNewlineOrEof hend).bind (parses_pure _ r)

omit h in
theorem parses_while {c : Expr} {body : Block} {l l₁ l₂ : Nat} {ts mid mid' r : List Spanned}
    (hc : Parses (parseExpr sub ctx) c ts (tok .newline l₁ :: mid))
    (hbody : Parses (parseBlock sub ctx [.«end»]) body (dropNewlines mid) (tok .«end» l₂ :: mid'))
    (hend : LineEnd mid' r) :
    Parses (parseWhile sub ctx) (.«while» c body l) (tok .«while» l :: ts) r :=
  (parses_currentLine _).bind <| (parses_advance _ ts).bind <| hc.bind <|
    parses_header (hbody.bind (parses_footer _ hend))

omit h in
theorem parses_for {var : String} {iter : Expr} {body : Block} {l l₁ l₂ l₃ l₄ : Nat}
    {ts mid mid' r : List Spanned}
    (hiter : Parses (parseExpr sub ctx) iter ts (tok .newline l₃ :: mid))
    (hbody : Parses (parseBlock sub ctx [.«end»]) body (dropNewlines mid) (tok .«end» l₄ :: mid'))
    (hend : LineEnd mid' r) :
    Parses (parseFor sub ctx) (.«for» var iter body l)
      (tok .«for» l :: .mk (.ident var) l₁ :: tok .«in» l₂ :: ts) r :=
  (parses_currentLine _).bind <| (parses_advance _ _).bind <|
    (parses_expectName _ var l₁ _).bind <| (parses_expect _ l₂ ts).bind <| hiter.bind <|
      parses_header (hbody.bind (parses_footer _ hend))

omit h in
theorem parses_fnDef {name : String} {params : List String} {body : Block}
    {l l₁ l₂ l₃ l₄ l₅ : Nat} {ts mid mid' r : List Spanned}
    (hparams : Parses parseParams params ts (tok .rParen l₃ :: tok .newline l₄ :: mid))
    (hbody : Parses (parseBlock sub { ctx with fnDepth := ctx.fnDepth + 1 } [.«end»]) body
      (dropNewlines mid) (tok .«end» l₅ :: mid'))
    (hend : LineEnd mid' r) :
    Parses (parseFnDef sub ctx) (.fnDef name params body l)
      (tok .fn l :: .mk (.ident name) l₁ :: tok .lParen l₂ :: ts) r :=
  (parses_currentLine _).bind <| (parses_advance _ _).bind <|
    (parses_expectName _ name l₁ _).bind <| (parses_expect _ l₂ ts).bind <| hparams.bind <|
      (parses_expect _ l₃ _).bind <| parses_header (hbody.bind (parses_footer _ hend))

omit h in
theorem parses_break {l : Nat} {ts r : List Spanned} (hend : LineEnd ts r) :
    Parses parseBreak (.«break» l) (tok .«break» l :: ts) r :=
  (parses_currentLine _).bind <| (parses_advance _ ts).bind <|
    (parses_expectNewlineOrEof hend).bind (parses_pure _ r)

omit h in
theorem parses_continue {l : Nat} {ts r : List Spanned} (hend : LineEnd ts r) :
    Parses parseContinue (.«continue» l) (tok .«continue» l :: ts) r :=
  (parses_currentLine _).bind <| (parses_advance _ ts).bind <|
    (parses_expectNewlineOrEof hend).bind (parses_pure _ r)

omit h in
theorem parses_import {path : String} {l l₁ : Nat} {ts r : List Spanned} (hend : LineEnd ts r) :
    Parses parseImport (.«import» path l) (tok .«import» l :: .mk (.str path) l₁ :: ts) r :=
  (parses_currentLine _).bind <| (parses_advance _ _).bind <|
    (show Parses advanceSpanned (.mk (.str path) l₁) (.mk (.str path) l₁ :: ts) ts
      from fun _ => rfl).bind <| (parses_expectNewlineOrEof hend).bind (parses_pure _ r)

omit h in
theorem parses_tryCatch {tryBody catchBody : Block} {var : String} {l l₁ l₂ l₃ l₄ l₅ : Nat}
    {ts mid mid' r : List Spanned}
    (htry : Parses (parseBlock sub ctx [.«catch»]) tryBody (dropNewlines ts)
      (tok .«catch» l₂ :: .mk (.ident var) l₃ :: tok .newline l₄ :: mid))
    (hcatch : Parses (parseBlock sub ctx [.«end»]) catchBody (dropNewlines mid)
      (tok .«end» l₅ :: mid'))
    (hend : LineEnd mid' r) :
    Parses (parseTryCatch sub ctx) (.tryCatch tryBody var catchBody l)
      (tok .«try» l :: tok .newline l₁ :: ts) r :=
  (parses_currentLine _).bind <| (parses_advance _ _).bind <| parses_header <| htry.bind <|
    (parses_expect _ l₂ _).bind <| (parses_expectName _ var l₃ _).bind <|
      parses_header (hcatch.bind (parses_footer _ hend))

omit h in
theorem parses_exprStmt {e : Expr} {ts mid r : List Spanned}
    (he : Parses (parseExpr sub ctx) e ts mid) (hend : LineEnd mid r) :
    Parses (parseExprStmt sub ctx) (.exprStmt e (headLine ts)) ts r :=
  (parses_currentLine ts).bind <| he.bind <|
    (parses_expectNewlineOrEof hend).bind (parses_pure _ r)

omit h in
/-- A statement that begins with no keyword and is no assignment is an expression. -/
theorem resumes_exprStmt {top : Bool} {ts : List Spanned}
    (hkeyword : ∀ m, headMark ts = some m → m.beginsStmt = false)
    (hassign : ∀ name, headToken ts = .ident name →
      isAssignStmt ts = false ∧ isIndexAssignStmt ts = false) :
    Resumes (parseStmtInner sub ctx top) (parseExprStmt sub ctx) ts ts := by
  intro errors
  rw [parseStmtInner, peekToken, read_run]
  cases htok : headToken ts with
  | ident name =>
    obtain ⟨h1, h2⟩ := hassign name htok
    simp only [read_run, h1, h2, Bool.false_eq_true, if_false]
  | mark m =>
    have hm : m.beginsStmt = false := hkeyword m (by rw [headMark, htok]; rfl)
    cases m <;> first | rfl | cases hm
  | _ => rfl

omit h in
theorem parses_conditional {c : Expr} {thenBody elseBody : Block} {l l₁ : Nat} {t : Mark}
    {ts mid mid' r : List Spanned}
    (hc : Parses (parseExpr sub ctx) c ts (tok .newline l₁ :: mid))
    (hthen : Parses (parseBlock sub ctx [.«else», .elif, .«end»]) thenBody (dropNewlines mid) mid')
    (helse : Parses (parseBranches sub ctx) elseBody mid' r) :
    Parses (parseIf sub ctx) (.«if» c thenBody elseBody l) (tok t l :: ts) r :=
  (parses_currentLine _).bind <| (parses_advance _ ts).bind <| hc.bind <|
    parses_header (hthen.bind (helse.bind (parses_pure _ r)))

omit h in
theorem parses_branchElif {s : Stmt} {l : Nat} {ts r : List Spanned}
    (hd : ctx.depth < maxAstDepth)
    (hs : Parses (sub.parseIf { ctx with depth := ctx.depth + 1 }) s (tok .elif l :: ts) r) :
    Parses (parseBranches sub ctx) [s] (tok .elif l :: ts) r :=
  (parses_peekMark _).bind ((parses_withParseDepth hd hs).bind (parses_pure _ r))

omit h in
theorem parses_branchElse {body : Block} {l l₁ l₂ : Nat} {ts mid r : List Spanned}
    (hbody : Parses (parseBlock sub ctx [.«end»]) body (dropNewlines ts) (tok .«end» l₂ :: mid))
    (hend : LineEnd mid r) :
    Parses (parseBranches sub ctx) body (tok .«else» l :: tok .newline l₁ :: ts) r :=
  (parses_peekMark _).bind <| (parses_advance _ _).bind <|
    parses_header (hbody.bind (parses_footer _ hend))

omit h in
theorem parses_branchNone {l : Nat} {ts r : List Spanned} (hend : LineEnd ts r) :
    Parses (parseBranches sub ctx) [] (tok .«end» l :: ts) r :=
  (parses_peekMark _).bind (parses_footer _ hend)

end

/-! ### Programs -/

section

variable {sub : Level} (h : sub.Runs 1)
include h

theorem parses_programNil {stmts : Program} {r : List Spanned} (hr : headMark r = some .eof) :
    Parses (tokenLoop (programStep sub) stmts) stmts r r := by
  refine parses_loopDone (takesRounds_programStep h) fun errors => ?_
  rw [programStep_run, if_pos (show (headToken r).mark? = some .eof from hr)]

theorem resumes_programCons {stmts : Program} {s : Stmt} {ts mid : List Spanned}
    (hts : headMark ts ≠ some .eof) (hs : Parses (parseStmt sub ⟨0, 0⟩ true) s ts mid) :
    Resumes (tokenLoop (programStep sub) stmts) (tokenLoop (programStep sub) (stmts ++ [s])) ts
      (dropNewlines mid) := by
  refine resumes_loop (takesRounds_programStep h) fun errors => ?_
  rw [programStep_run, if_neg (show (headToken ts).mark? ≠ some .eof from hts),
    bind_run_ok (attempt_run_ok (hs errors))]
  exact (show Parses (afterStmt stmts (.ok s)) (.inl (stmts ++ [s])) mid (dropNewlines mid) from
    (parses_skipNewlines mid).bind (parses_pure _ _)) errors

end

/-! ## Derivations -/

/-- What the parse function of a phrase does with it. -/
def Phrase.Parsed (n : Nat) (ctx : Ctx) (ts r : List Spanned) : Phrase → Prop
  | .expr e => e.height ≤ maxAstDepth → Ended 0 r → Parses (parseExpr (level n) ctx) e ts r
  | .binary p e => e.height ≤ maxAstDepth → Ended (p.rank + 1) r →
    Resumes (parsePrec (level n) ctx p) (operandLoop (level n) ctx p e) ts r
  | .unary e => e.height ≤ maxAstDepth → Ended 5 r → Parses (parseUnary (level n) ctx) e ts r
  | .call e => e.height ≤ maxAstDepth →
    Resumes (parseCall (level n) ctx) (tokenLoop (callStep (level n) ctx) e) ts r
  | .primary e => e.height ≤ maxAstDepth → Parses (parsePrimary (level n) ctx) e ts r
  | .args es => exprsHeight es ≤ maxAstDepth → headMark r = some .rParen →
    Parses (parseArgs (level n) ctx) es ts r
  | .moreExprs literal es => exprsHeight es ≤ maxAstDepth →
    headMark r = some .rParen ∨ headMark r = some .rBracket →
    ∀ before, Parses (Syntax.moreExprs (level n) ctx literal before) (before ++ es) ts r
  | .pair p => p.1.height ≤ maxAstDepth → p.2.height ≤ maxAstDepth → Ended 0 r →
    Parses (parsePair (level n) ctx) p ts r
  | .morePairs ps => pairsHeight ps ≤ maxAstDepth → headMark r = some .rBrace →
    ∀ before, Parses (tokenLoop (Syntax.morePairs (level n) ctx) before) (before ++ ps) ts r
  | .parts line ps result => partsHeight result ≤ maxAstDepth →
    ∀ ts, Parses (parseParts (level n) ctx line ps) result ts ts
  | .params names => headMark r = some .rParen → Parses parseParams names ts r
  | .moreParams names => headMark r = some .rParen →
    ∀ before, Parses (tokenLoop Syntax.moreParams before) (before ++ names) ts r
  | .block terminators stmts => (∀ m ∈ terminators, m.endsBlock = true) →
    stmtsHeight stmts ≤ maxAstDepth →
    ∀ before, Parses (tokenLoop (blockStep (level n) ctx terminators) before) (before ++ stmts) ts r
  | .stmt top s => s.height ≤ maxAstDepth → Parses (parseStmt (level n) ctx top) s ts r
  | .form top s => s.height ≤ maxAstDepth → Parses (parseStmtInner (level n) ctx top) s ts r
  | .conditional s => s.height ≤ maxAstDepth → Parses (parseIf (level n) ctx) s ts r
  | .branches elseBody => stmtsHeight elseBody ≤ maxAstDepth →
    Parses (parseBranches (level n) ctx) elseBody ts r
  | .program stmts => ctx = ⟨0, 0⟩ → stmtsHeight stmts ≤ maxAstDepth →
    ∀ before, Parses (tokenLoop (programStep (level n)) before) (before ++ stmts) ts r

/-- The level below a level that goes through the guard often enough. -/
theorem level_below {n : Nat} {ctx : Ctx} (hn : maxAstDepth ≤ ctx.depth + n) :
    ctx.depth < maxAstDepth → (level n).Runs (ctx.depth + 1) :=
  fun hd => level_runs hd (by omega)

/-- An operand, from the level of precedence that its phrase is of. -/
theorem parses_operand {p : Prec} {e : Expr} {n : Nat} {ctx : Ctx} {ts r : List Spanned}
    (hn : maxAstDepth ≤ ctx.depth + n) (he : e.height ≤ maxAstDepth)
    (h : (p.operand e).Parsed n ctx ts r) (hr : Ended (p.rank + 1) r) :
    Parses (parseOperand (level n) ctx p) e ts r := by
  have hbinary : ∀ q : Prec, p.rank + 1 = q.rank → (Phrase.binary q e).Parsed n ctx ts r →
      Parses (parsePrec (level n) ctx q) e ts r := fun q hq hprec =>
    (hprec he (hr.mono (by omega))).parses
      (parses_operandDone (level_below hn) (hq ▸ hr))
  cases p
  case or => exact hbinary .and rfl h
  case and => exact hbinary .comparison rfl h
  case comparison => exact hbinary .addSub rfl h
  case addSub => exact hbinary .mulDiv rfl h
  case mulDiv => exact (show (Phrase.unary e).Parsed n ctx ts r from h) he hr

/-- The rest of a list of expressions begins with a comma or is empty. -/
theorem moreExprs_head {d : Nat} {f literal : Bool} {es : List Expr} {ts r : List Spanned}
    (h : Derives d f (.moreExprs literal es) ts r) : ts = r ∨ headMark ts = some .comma := by
  cases h with
  | moreNil => exact .inl rfl
  | moreTrailing | moreCons => exact .inr rfl

theorem morePairs_head {d : Nat} {f : Bool} {ps : List (Expr × Expr)} {ts r : List Spanned}
    (h : Derives d f (.morePairs ps) ts r) : ts = r ∨ headMark ts = some .comma := by
  cases h with
  | pairsNil => exact .inl rfl
  | pairsTrailing | pairsCons => exact .inr rfl

theorem ended_moreExprs {d : Nat} {f literal : Bool} {es : List Expr} {ts r : List Spanned}
    (h : Derives d f (.moreExprs literal es) ts r)
    (hr : headMark r = some .rParen ∨ headMark r = some .rBracket) : Ended 0 ts := by
  rcases moreExprs_head h with rfl | hcomma
  · rcases hr with hr | hr <;> exact ended_of_mark hr rfl
  · exact ended_of_mark hcomma rfl

theorem ended_morePairs {d : Nat} {f : Bool} {ps : List (Expr × Expr)} {ts r : List Spanned}
    (h : Derives d f (.morePairs ps) ts r) (hr : headMark r = some .rBrace) : Ended 0 ts := by
  rcases morePairs_head h with rfl | hcomma
  · exact ended_of_mark hr rfl
  · exact ended_of_mark hcomma rfl

/-- An expression does not begin with a mark that is no first token of one. -/
theorem expr_headMark {d : Nat} {f : Bool} {e : Expr} {ts r : List Spanned}
    (h : Derives d f (.expr e) ts r) {m : Mark}
    (hm : m ∉ [Mark.true, .false, .null, .print, .lParen, .lBracket, .lBrace, .fn, .not, .minus]) :
    headMark ts ≠ some m :=
  fun hhead => hm (beginsExpr_mark (derives_begins h) hhead)

/-- The parser finds what is derived: the induction is on the derivation. -/
theorem derives_parsed {d : Nat} {f : Bool} {φ : Phrase} {ts r : List Spanned}
    (h : Derives d f φ ts r) : ∀ (n : Nat) (ctx : Ctx), ctx.depth = d →
      (0 < ctx.fnDepth ↔ f = true) → maxAstDepth ≤ ctx.depth + n → φ.Parsed n ctx ts r := by
  induction h with
  | @expr d f e ts r hd h ih =>
    rintro n ctx rfl hf hn he hr
    obtain ⟨n, rfl⟩ : ∃ m, n = m + 1 := ⟨n - 1, by omega⟩
    have hn' : maxAstDepth ≤ { ctx with depth := ctx.depth + 1 }.depth + n := by
      dsimp only
      omega
    have hor := ih n { ctx with depth := ctx.depth + 1 } rfl hf hn' he (hr.mono (Nat.zero_le _))
    exact parses_parseExpr hd he
      (hor.parses (parses_operandDone (p := .or) (level_below hn') hr))
  | @operand d f p e ts r h ih =>
    rintro n ctx rfl hf hn he hr
    rw [parsePrec_eq]
    exact (parses_operand hn he (ih n ctx rfl hf hn) hr).resumes
  | @operation d f p left op right m l ts mid r hop hleft hright ih ih' =>
    rintro n ctx rfl hf hn he hr
    have hparts : left.height ≤ maxAstDepth ∧ right.height ≤ maxAstDepth := by
      rw [Expr.height] at he
      omega
    exact (ih n ctx rfl hf hn hparts.1 (ended_op hop l mid)).trans
      (resumes_operation (level_below hn) hop he
        (parses_operand hn hparts.2 (ih' n ctx rfl hf hn) hr))
  | @unaryCall d f e ts r h ih =>
    rintro n ctx rfl hf hn he hr
    exact parses_unaryCall (level_below hn) (ih n ctx rfl hf hn he) (call_begins h (.inl rfl)) hr
  | @unaryOp d f op e m l ts r hd hop h ih =>
    rintro n ctx rfl hf hn he hr
    obtain ⟨n, rfl⟩ : ∃ m, n = m + 1 := ⟨n - 1, by omega⟩
    refine parses_unaryOp hd hop he (ih n { ctx with depth := ctx.depth + 1 } rfl hf ?_ ?_ hr)
    · dsimp only
      omega
    · rw [Expr.height] at he
      omega
  | @callPrimary d f e ts r h ih =>
    rintro n ctx rfl hf hn he
    exact resumes_callPrimary (ih n ctx rfl hf hn he)
  | @callArgs d f callee args l l' ts mid r hcallee hargs ih ih' =>
    rintro n ctx rfl hf hn he
    have hparts : callee.height ≤ maxAstDepth ∧ exprsHeight args ≤ maxAstDepth := by
      rw [Expr.height] at he
      omega
    exact (ih n ctx rfl hf hn hparts.1).trans
      (resumes_callArgs (level_below hn) he (ih' n ctx rfl hf hn hparts.2 rfl))
  | @callIndex d f object idx l l' ts mid r hobject hidx ih ih' =>
    rintro n ctx rfl hf hn he
    have hparts : object.height ≤ maxAstDepth ∧ idx.height ≤ maxAstDepth := by
      rw [Expr.height] at he
      omega
    exact (ih n ctx rfl hf hn hparts.1).trans (resumes_callIndex (level_below hn) he
      (ih' n ctx rfl hf hn hparts.2 (ended_of_mark rfl rfl)))
  | argsNil =>
    rintro n ctx rfl hf hn - -
    exact parses_argsNil _ _
  | @argsCons d f e es ts mid r h hmore ih ih' =>
    rintro n ctx rfl hf hn hes hr
    have hparts : e.height ≤ maxAstDepth ∧ exprsHeight es ≤ maxAstDepth := by
      rw [exprsHeight] at hes
      omega
    exact parses_argsCons (expr_headMark h (by decide))
      (ih n ctx rfl hf hn hparts.1 (ended_moreExprs hmore (.inl hr)))
      (ih' n ctx rfl hf hn hparts.2 (.inl hr) [e])
  | moreNil =>
    rintro n ctx rfl hf hn - hr before
    rw [List.append_nil]
    exact parses_moreNil (level_below hn) (by rcases hr with hr | hr <;> rw [hr] <;> decide)
  | moreTrailing =>
    rintro n ctx rfl hf hn - - before
    rw [List.append_nil]
    exact parses_moreTrailing (level_below hn)
  | @moreCons d f literal e es l ts mid r h hmore ih ih' =>
    rintro n ctx rfl hf hn hes hr before
    have hparts : e.height ≤ maxAstDepth ∧ exprsHeight es ≤ maxAstDepth := by
      rw [exprsHeight] at hes
      omega
    have hrest := ih' n ctx rfl hf hn hparts.2 hr (before ++ [e])
    rw [List.append_assoc, List.singleton_append] at hrest
    exact (resumes_moreCons (level_below hn) (expr_headMark h (by decide))
      (ih n ctx rfl hf hn hparts.1 (ended_moreExprs hmore hr))).parses hrest
  | pair _ _ ih ih' =>
    rintro n ctx rfl hf hn hk hv hr
    exact parses_pair (ih n ctx rfl hf hn hk (ended_of_mark rfl rfl)) (ih' n ctx rfl hf hn hv hr)
  | pairsNil =>
    rintro n ctx rfl hf hn - hr before
    rw [List.append_nil]
    exact parses_pairsNil (level_below hn) (by rw [hr]; decide)
  | pairsTrailing =>
    rintro n ctx rfl hf hn - - before
    rw [List.append_nil]
    exact parses_pairsTrailing (level_below hn)
  | @pairsCons d f p ps l ts mid r h hmore ih ih' =>
    rintro n ctx rfl hf hn hes hr before
    have hparts : p.1.height ≤ maxAstDepth ∧ p.2.height ≤ maxAstDepth ∧
        pairsHeight ps ≤ maxAstDepth := by
      rw [pairsHeight] at hes
      omega
    have hrest := ih' n ctx rfl hf hn hparts.2.2 hr (before ++ [p])
    rw [List.append_assoc, List.singleton_append] at hrest
    have hhead : headMark ts ≠ some .rBrace := by
      cases h with
      | pair hk _ => exact expr_headMark hk (by decide)
    exact (resumes_pairsCons (level_below hn) hhead
      (ih n ctx rfl hf hn hparts.1 hparts.2.1 (ended_morePairs hmore hr))).parses hrest
  | int | float | str | boolTrue | boolFalse | null | ident | listNil | dictNil =>
    rintro n ctx rfl hf hn -
    exact fun _ => rfl
  | @print d f args l l' l'' ts r h ih =>
    rintro n ctx rfl hf hn he
    have hargs : exprsHeight args ≤ maxAstDepth := by
      rw [Expr.height] at he
      omega
    exact parses_print he (ih n ctx rfl hf hn hargs rfl)
  | paren h ih =>
    rintro n ctx rfl hf hn he
    exact parses_paren (ih n ctx rfl hf hn he (ended_of_mark rfl rfl))
  | @list d f e es l l' ts mid r h hmore ih ih' =>
    rintro n ctx rfl hf hn he
    have hparts : e.height ≤ maxAstDepth ∧ exprsHeight es ≤ maxAstDepth := by
      rw [Expr.height, exprsHeight] at he
      omega
    exact parses_list (expr_headMark h (by decide)) he
      (ih n ctx rfl hf hn hparts.1 (ended_moreExprs hmore (.inr rfl)))
      (ih' n ctx rfl hf hn hparts.2 (.inr rfl) [e])
  | @dict d f p ps l l' ts mid r h hmore ih ih' =>
    rintro n ctx rfl hf hn he
    have hparts : p.1.height ≤ maxAstDepth ∧ p.2.height ≤ maxAstDepth ∧
        pairsHeight ps ≤ maxAstDepth := by
      rw [Expr.height, pairsHeight] at he
      omega
    have hhead : headMark ts ≠ some .rBrace := by
      cases h with
      | pair hk _ => exact expr_headMark hk (by decide)
    exact parses_dict hhead he
      (ih n ctx rfl hf hn hparts.1 hparts.2.1 (ended_morePairs hmore rfl))
      (ih' n ctx rfl hf hn hparts.2.2 rfl [p])
  | @fStr d f parts result l r h ih =>
    rintro n ctx rfl hf hn he
    have hparts : partsHeight result ≤ maxAstDepth := by
      rw [Expr.height] at he
      omega
    exact parses_fStr he (ih n ctx rfl hf hn hparts r)
  | @lambdaBlock d f params body l l₁ l₂ l₃ l₄ ts mid r hparams hbody ih ih' =>
    rintro n ctx rfl hf hn he
    have hheight : stmtsHeight body ≤ maxAstDepth := by
      rw [Expr.height] at he
      omega
    exact parses_lambdaBlock he (ih n ctx rfl hf hn rfl)
      (ih' n { ctx with fnDepth := ctx.fnDepth + 1 } rfl (by simp) hn (by decide) hheight [])
  | @lambdaExpr d f params e l l₁ l₂ l₃ ts mid r hparams hbody ih ih' =>
    rintro n ctx rfl hf hn he
    have hheight : e.height ≤ maxAstDepth := by
      rw [Expr.height, stmtsHeight, Stmt.height] at he
      omega
    have hmid : headMark mid ≠ some .newline := by
      intro hnl
      have hsame : afterReturn mid = mid := by
        rw [afterReturn, hnl, if_neg (by decide)]
      exact expr_headMark hbody (m := .newline) (by decide) (by rw [hsame, hnl])
    exact parses_lambdaExpr he hmid (ih n ctx rfl hf hn rfl)
      (ih' n ctx rfl hf hn hheight (ended_of_mark rfl rfl))
  | partsNil =>
    rintro n ctx rfl hf hn - ts
    exact parses_pure _ ts
  | @partsLiteral d f l s parts result h ih =>
    rintro n ctx rfl hf hn hheight ts
    exact parses_partsLiteral (ih n ctx rfl hf hn (by rwa [partsHeight] at hheight) ts)
  | @partsExpr d f l tokens e r parts result h hr hmore ih ih' =>
    rintro n ctx rfl hf hn hheight ts
    have hparts : e.height ≤ maxAstDepth ∧ partsHeight result ≤ maxAstDepth := by
      rw [partsHeight] at hheight
      omega
    exact parses_partsExpr
      (ih n { ctx with fnDepth := 0 } rfl (by simp) hn hparts.1 (ended_of_mark hr rfl)) hr
      (ih' n ctx rfl hf hn hparts.2 ts)
  | paramsNil =>
    rintro n ctx rfl hf hn -
    exact parses_paramsNil _ _
  | @paramsCons d f name names l ts r h ih =>
    rintro n ctx rfl hf hn hr
    exact parses_paramsCons (ih n ctx rfl hf hn hr [name])
  | moreParamsNil =>
    rintro n ctx rfl hf hn hr before
    rw [List.append_nil]
    exact parses_moreParamsNil (by rw [hr]; decide)
  | @moreParamsCons d f name names l l' ts r h ih =>
    rintro n ctx rfl hf hn hr before
    have hrest := ih n ctx rfl hf hn hr (before ++ [name])
    rw [List.append_assoc, List.singleton_append] at hrest
    exact resumes_moreParamsCons.parses hrest
  | blockNil hr =>
    rintro n ctx rfl hf hn - - before
    rw [List.append_nil]
    exact parses_blockNil (level_below hn) hr
  | @blockCons d f terminators s stmts ts mid r h hmore ih ih' =>
    rintro n ctx rfl hf hn hterm hheight before
    have hparts : s.height ≤ maxAstDepth ∧ stmtsHeight stmts ≤ maxAstDepth := by
      rw [stmtsHeight] at hheight
      omega
    have hrest := ih' n ctx rfl hf hn hterm hparts.2 (before ++ [s])
    rw [List.append_assoc, List.singleton_append] at hrest
    have hhead := fun m hm => beginsStmt_mark (m := m) (derives_begins h) hm
    refine (resumes_blockCons (level_below hn) ?_ ?_ ?_ (ih n ctx rfl hf hn hparts.1)).parses hrest
    · rintro (heof | ⟨m, hm, hmark⟩)
      · exact (hhead _ heof).1 rfl
      · have hends := (hhead m hmark).2.2.1
        rw [hterm m hm] at hends
        cases hends
    · intro himport
      exact Bool.false_ne_true ((hhead _ himport).2.2.2.2 rfl)
    · rintro ⟨hzero, hreturn⟩
      have := hf.2 ((hhead _ hreturn).2.2.2.1 rfl)
      omega
  | @stmt d f top s ts r hd h ih =>
    rintro n ctx rfl hf hn hheight
    obtain ⟨n, rfl⟩ : ∃ m, n = m + 1 := ⟨n - 1, by omega⟩
    refine parses_parseStmt hd hheight (ih n { ctx with depth := ctx.depth + 1 } rfl hf ?_ hheight)
    dsimp only
    omega
  | @«let» d f top name e l l₁ l₂ ts mid r h hend ih =>
    rintro n ctx rfl hf hn hheight
    have he : e.height ≤ maxAstDepth := by
      rw [Stmt.height] at hheight
      omega
    exact (parses_peekToken _).bind (parses_let (ih n ctx rfl hf hn he (hend.ended 0)) hend)
  | @assign d f top name e l l₁ ts mid r h hend ih =>
    rintro n ctx rfl hf hn hheight
    have he : e.height ≤ maxAstDepth := by
      rw [Stmt.height] at hheight
      omega
    exact (parses_peekToken _).bind (parses_assign (ih n ctx rfl hf hn he (hend.ended 0)) hend)
  | @indexAssign d f top name idx e l l₁ l₂ l₃ ts mid mid' r hidx h hend ih ih' =>
    rintro n ctx rfl hf hn hheight
    have hparts : idx.height ≤ maxAstDepth ∧ e.height ≤ maxAstDepth := by
      rw [Stmt.height] at hheight
      omega
    have hstmt : Parses (parseIndexAssign (level n) ctx) (.indexAssign name idx e l)
        (.mk (.ident name) l :: tok .lBracket l₁ :: ts) r :=
      parses_indexAssign (ih n ctx rfl hf hn hparts.1 (ended_of_mark rfl rfl))
        (ih' n ctx rfl hf hn hparts.2 (hend.ended 0)) hend
    refine (parses_peekToken _).bind (fun errors => ?_)
    simp only [headToken_cons, Spanned.token_mk, read_run]
    rw [isAssignStmt_cons, isIndexAssignStmt_cons, headMark_cons, scan_lBracket, derives_scan hidx,
      scan_last]
    exact hstmt errors
  | @«return» d top e l ts mid r h hend ih =>
    rintro n ctx rfl hf hn hheight
    have he : e.height ≤ maxAstDepth := by
      rw [Stmt.height] at hheight
      omega
    refine (parses_peekToken _).bind ?_
    simp only [headToken_cons, Spanned.token_mk, hf.2 rfl, if_true]
    exact parses_return (ih n ctx rfl hf hn he (hend.ended 0)) hend
  | @«if» d f top s l ts r h ih =>
    rintro n ctx rfl hf hn hheight
    exact (parses_peekToken _).bind (ih n ctx rfl hf hn hheight)
  | @«while» d f top c body l l₁ l₂ ts mid mid' r h hbody hend ih ih' =>
    rintro n ctx rfl hf hn hheight
    have hparts : c.height ≤ maxAstDepth ∧ stmtsHeight body ≤ maxAstDepth := by
      rw [Stmt.height] at hheight
      omega
    exact (parses_peekToken _).bind (parses_while
      (ih n ctx rfl hf hn hparts.1 (ended_of_mark rfl rfl))
      (ih' n ctx rfl hf hn (by decide) hparts.2 []) hend)
  | @«for» d f top var iter body l l₁ l₂ l₃ l₄ ts mid mid' r h hbody hend ih ih' =>
    rintro n ctx rfl hf hn hheight
    have hparts : iter.height ≤ maxAstDepth ∧ stmtsHeight body ≤ maxAstDepth := by
      rw [Stmt.height] at hheight
      omega
    exact (parses_peekToken _).bind (parses_for
      (ih n ctx rfl hf hn hparts.1 (ended_of_mark rfl rfl))
      (ih' n ctx rfl hf hn (by decide) hparts.2 []) hend)
  | @fnDef d f top name params body l l₁ l₂ l₃ l₄ l₅ ts mid mid' r hparams hbody hend ih ih' =>
    rintro n ctx rfl hf hn hheight
    have hheight' : stmtsHeight body ≤ maxAstDepth := by
      rw [Stmt.height] at hheight
      omega
    exact (parses_peekToken _).bind (parses_fnDef (ih n ctx rfl hf hn rfl)
      (ih' n { ctx with fnDepth := ctx.fnDepth + 1 } rfl (by simp) hn (by decide) hheight' [])
      hend)
  | «break» hend =>
    rintro n ctx rfl hf hn -
    exact (parses_peekToken _).bind (parses_break hend)
  | «continue» hend =>
    rintro n ctx rfl hf hn -
    exact (parses_peekToken _).bind (parses_continue hend)
  | «import» hend =>
    rintro n ctx rfl hf hn -
    exact (parses_peekToken _).bind (parses_import hend)
  | @tryCatch d f top tryBody var catchBody l l₁ l₂ l₃ l₄ l₅ ts mid mid' r htry hcatch hend ih ih' =>
    rintro n ctx rfl hf hn hheight
    have hparts : stmtsHeight tryBody ≤ maxAstDepth ∧ stmtsHeight catchBody ≤ maxAstDepth := by
      rw [Stmt.height] at hheight
      omega
    exact (parses_peekToken _).bind (parses_tryCatch
      (ih n ctx rfl hf hn (by decide) hparts.1 [])
      (ih' n ctx rfl hf hn (by decide) hparts.2 []) hend)
  | @exprStmt d f top e ts mid r hfn h hend ih =>
    rintro n ctx rfl hf hn hheight
    have he : e.height ≤ maxAstDepth := by
      rw [Stmt.height] at hheight
      omega
    refine (resumes_exprStmt ?_ ?_).parses
      (parses_exprStmt (ih n ctx rfl hf hn he (hend.ended 0)) hend)
    · intro m hm
      have hmem := beginsExpr_mark (derives_begins h) hm
      have hne : m ≠ .fn := fun hfn' => hfn (by rw [hm, hfn'])
      cases m <;> first | rfl | exact absurd rfl hne | exact absurd hmem (by decide)
    · exact fun name hname => ⟨exprStmt_notAssign h hend hname, exprStmt_notIndexAssign h hend hname⟩
  | @conditional d f c thenBody elseBody l l₁ t ts mid mid' r ht h hthen helse ih ih' ih'' =>
    rintro n ctx rfl hf hn hheight
    have hparts : c.height ≤ maxAstDepth ∧ stmtsHeight thenBody ≤ maxAstDepth ∧
        stmtsHeight elseBody ≤ maxAstDepth := by
      rw [Stmt.height] at hheight
      omega
    exact parses_conditional (ih n ctx rfl hf hn hparts.1 (ended_of_mark rfl rfl))
      (ih' n ctx rfl hf hn (by decide) hparts.2.1 []) (ih'' n ctx rfl hf hn hparts.2.2)
  | @branchElif d f s l ts r hd h ih =>
    rintro n ctx rfl hf hn hheight
    obtain ⟨n, rfl⟩ : ∃ m, n = m + 1 := ⟨n - 1, by omega⟩
    refine parses_branchElif hd (ih n { ctx with depth := ctx.depth + 1 } rfl hf ?_ ?_)
    · dsimp only
      omega
    · rw [stmtsHeight] at hheight
      omega
  | @branchElse d f body l l₁ l₂ ts mid r h hend ih =>
    rintro n ctx rfl hf hn hheight
    exact parses_branchElse (ih n ctx rfl hf hn (by decide) hheight []) hend
  | branchNone hend =>
    rintro n ctx rfl hf hn -
    exact parses_branchNone hend
  | programNil hr =>
    rintro n ctx rfl hf hn rfl - before
    rw [List.append_nil]
    exact parses_programNil (level_below hn (by decide)) hr
  | @programCons d f s stmts ts mid r h hmore ih ih' =>
    rintro n ctx rfl hf hn rfl hheight before
    have hparts : s.height ≤ maxAstDepth ∧ stmtsHeight stmts ≤ maxAstDepth := by
      rw [stmtsHeight] at hheight
      omega
    have hrest := ih' n ⟨0, 0⟩ rfl hf hn rfl hparts.2 (before ++ [s])
    rw [List.append_assoc, List.singleton_append] at hrest
    refine (resumes_programCons (level_below hn (by decide)) ?_
      (ih n ⟨0, 0⟩ rfl hf hn hparts.1)).parses hrest
    exact fun heof => (beginsStmt_mark (derives_begins h) heof).1 rfl

/-- A program that is derived is accepted, with that tree. -/
theorem parse_complete {tokens : List Spanned} {program : Program}
    (h : DerivesProgram tokens program) : parse tokens = .accepted program := by
  obtain ⟨⟨r, hderives⟩, hlimit⟩ := h
  have hheight : stmtsHeight program ≤ maxAstDepth := by
    have := (stmtsExcessiveDepthLine_eq_none (by decide) program).1 hlimit
    omega
  have hloop := derives_parsed hderives maxAstDepth ⟨0, 0⟩ rfl (by decide) (by simp) rfl hheight []
  have hrun : Parses parseProgram program tokens r := (parses_skipNewlines tokens).bind hloop
  simp only [parse, hrun []]
  rfl

end Tsumugi.Syntax
