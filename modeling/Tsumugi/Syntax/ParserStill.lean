import Tsumugi.Syntax.ParserComplete

/-!
# Where the parser leaves the list of errors alone

An f-string part is read with a list of errors of its own that is dropped. Errors go into
a list only from the lines of a block, and the expression functions get to a block only by
a line break.

Results: `level_stills`, `still_parseExpr`: on tokens without line breaks the expression
functions leave the list of errors as it is.
-/

namespace Tsumugi.Syntax

open Proc

variable {α β γ : Type}

/-! ## Parts without line breaks -/

/-- No line break among the tokens. -/
def NoNewline (ts : List Spanned) : Prop := ∀ t ∈ ts, t.token.mark? ≠ some .newline

theorem NoNewline.suffix {ts r : List Spanned} (h : NoNewline ts) (hr : r <:+ ts) : NoNewline r :=
  fun t ht => h t (hr.subset ht)

theorem NoNewline.head {ts : List Spanned} (h : NoNewline ts) : headMark ts ≠ some .newline := by
  match ts with
  | [] => exact fun h => by cases h
  | t :: ts => exact h t List.mem_cons_self

/-- The errors stay as they are, if no line break is left. -/
def still : Contract State Stop where
  rel _ s t := t.rest <:+ s.rest ∧ (NoNewline s.rest → t.errors = s.errors)
  refl _ := ⟨List.suffix_refl _, fun _ => rfl⟩
  trans h h' := ⟨h'.1.trans h.1, fun hs => (h'.2 (hs.suffix h.1)).trans (h.2 hs)⟩

abbrev Still {α : Type} (m : P α) : Prop := Meets still m

theorem still_fail (line : Nat) (problem : Problem) : Still (fail line problem : P α) :=
  meets_stop fun _ => ⟨List.suffix_refl _, fun _ => rfl⟩

theorem still_advance : Still advance :=
  meets_modify fun _ => ⟨List.tail_suffix _, fun _ => rfl⟩

theorem still_advanceSpanned : Still advanceSpanned :=
  meets_update fun _ => ⟨List.tail_suffix _, fun _ => rfl⟩

theorem still_expect (mark : Mark) : Still (expect mark) :=
  meets_bind still_advanceSpanned fun _ =>
    meets_ite (meets_pure _) (meets_ite (still_fail _ _) (still_fail _ _))

theorem still_expectName (place : NamePlace) : Still (expectName place) := by
  refine meets_bind still_advanceSpanned fun spanned => ?_
  split
  · exact meets_pure _
  · exact still_fail _ _

theorem still_checkExprDepth (e : Expr) (line : Nat) : Still (checkExprDepth e line) :=
  meets_ite (still_fail _ _) (meets_pure _)

theorem still_loop {step : β → P (β ⊕ γ)} (h : TakesRounds step) (hstep : ∀ b, Still (step b))
    (b : β) : Still (tokenLoop step b) := meets_loop h hstep b

theorem still_withParseDepth {ctx : Ctx} {expression : Bool} {parse : Ctx → P α}
    (h : ctx.depth < maxAstDepth → Still (parse { ctx with depth := ctx.depth + 1 })) :
    Still (withParseDepth ctx expression parse) := by
  unfold withParseDepth
  split
  · exact meets_bind (meets_gets _) fun _ => still_fail _ _
  · exact h (by omega)

theorem still_parseParams : Still parseParams := by
  refine meets_bind (meets_gets _) fun _ => meets_ite (meets_pure _) ?_
  refine meets_bind (still_expectName _) fun _ => still_loop takesRounds_moreParams (fun _ => ?_) _
  exact meets_bind (meets_gets _) fun _ => meets_ite
    (meets_bind still_advance fun _ => meets_bind (still_expectName _) fun _ => meets_pure _)
    (meets_pure _)

/-- The expression functions of a level leave the errors alone. -/
structure Level.Stills (sub : Level) (depth : Nat) : Prop where
  parseOr : ∀ ctx, ctx.depth = depth → Still (sub.parseOr ctx)
  parseUnary : ∀ ctx, ctx.depth = depth → Still (sub.parseUnary ctx)

section

variable {sub : Level} {ctx : Ctx} (h : ctx.depth < maxAstDepth → sub.Runs (ctx.depth + 1))
  (hs : ctx.depth < maxAstDepth → sub.Stills (ctx.depth + 1))
include hs

theorem still_parseExpr : Still (parseExpr sub ctx) :=
  meets_bind (meets_gets _) fun _ =>
    meets_bind (still_withParseDepth fun hd => (hs hd).parseOr _ rfl) fun _ =>
      still_checkExprDepth _ _

include h

theorem still_parseArgs : Still (parseArgs sub ctx) := by
  refine meets_bind (meets_gets _) fun _ => meets_ite (meets_pure _) ?_
  refine meets_bind (still_parseExpr hs) fun _ => still_loop (takesRounds_moreArgs h) (fun _ => ?_) _
  exact meets_bind (meets_gets _) fun _ => meets_ite
    (meets_bind still_advance fun _ => meets_bind (still_parseExpr hs) fun _ => meets_pure _)
    (meets_pure _)

theorem still_parseListLiteral : Still (parseListLiteral sub ctx) := by
  refine meets_bind still_advance fun _ => meets_bind (meets_gets _) fun _ => meets_ite ?_ ?_
  · exact meets_bind still_advance fun _ => meets_pure _
  · refine meets_bind (still_parseExpr hs) fun _ =>
      meets_bind (still_loop (takesRounds_moreItems h) (fun items => ?_) _) fun _ =>
        meets_bind (still_expect _) fun _ => meets_bind (meets_gets _) fun _ =>
          still_checkExprDepth _ _
    exact meets_bind (meets_gets _) fun _ => meets_ite
      (meets_bind still_advance fun _ => meets_bind (meets_gets _) fun _ =>
        meets_ite (meets_pure _) (meets_bind (still_parseExpr hs) fun _ => meets_pure _))
      (meets_pure _)

omit h in
theorem still_parsePair : Still (parsePair sub ctx) :=
  meets_bind (still_parseExpr hs) fun _ => meets_bind (still_expect _) fun _ =>
    meets_bind (still_parseExpr hs) fun _ => meets_pure _

theorem still_parseDictLiteral : Still (parseDictLiteral sub ctx) := by
  refine meets_bind still_advance fun _ => meets_bind (meets_gets _) fun _ => meets_ite ?_ ?_
  · exact meets_bind still_advance fun _ => meets_pure _
  · refine meets_bind (still_parsePair hs) fun _ =>
      meets_bind (still_loop (takesRounds_morePairs h) (fun pairs => ?_) _) fun _ =>
        meets_bind (still_expect _) fun _ => meets_bind (meets_gets _) fun _ =>
          still_checkExprDepth _ _
    exact meets_bind (meets_gets _) fun _ => meets_ite
      (meets_bind still_advance fun _ => meets_bind (meets_gets _) fun _ =>
        meets_ite (meets_pure _) (meets_bind (still_parsePair hs) fun _ => meets_pure _))
      (meets_pure _)

omit h hs in
theorem still_inFString (m : P α) (line : Nat) (tokens : List Spanned) :
    Still (inFString line tokens m) := by
  intro s
  simp only [inFString]
  split
  case h_1 => split <;> exact ⟨List.suffix_refl _, fun _ => rfl⟩
  case h_2 => exact ⟨List.suffix_refl _, fun _ => rfl⟩
  case h_3 => exact ⟨List.suffix_refl _, fun _ => rfl⟩

omit h hs in
theorem still_parseParts (line : Nat) : ∀ parts, Still (parseParts sub ctx line parts)
  | [] => meets_pure _
  | .literal _ :: parts => meets_bind (still_parseParts line parts) fun _ => meets_pure _
  | .expr _ :: parts => meets_bind (still_inFString _ _ _) fun _ =>
    meets_bind (still_parseParts line parts) fun _ => meets_pure _

omit h hs in
/-- What needs a line break is not there without one. -/
theorem still_atNewline {m m' : P α} (hm : Framed m) (hm' : Still m') :
    Still (peekMark >>= fun mark => if mark = some .newline then m else m') := by
  intro s
  change still.rel (stopOf ((if headMark s.rest = some .newline then m else m').run s).1) s
    ((if headMark s.rest = some .newline then m else m').run s).2
  split
  · next hhead => exact ⟨(hm s).1, fun hs => absurd hhead hs.head⟩
  · exact hm' s

/-- A lambda of several lines needs a line break. -/
theorem still_parseAnonymousFn : Still (parseAnonymousFn sub ctx) := by
  refine meets_bind (meets_gets _) fun line => meets_bind still_advance fun _ =>
    meets_bind (still_expect _) fun _ => meets_bind still_parseParams fun params =>
      meets_bind (still_expect _) fun _ => still_atNewline ?_ ?_
  · exact meets_bind framed_advance fun _ => meets_bind (framed_functionBody h) fun _ =>
      meets_bind (framed_expect _) fun _ => framed_checkExprDepth _ _
  · refine meets_bind (meets_gets _) fun bodyLine => meets_bind (meets_gets _) fun _ => ?_
    have hbody : Still (parseExpr sub ctx >>= fun e => expect .«end» >>= fun _ =>
        checkExprDepth (.lambda params [.«return» e bodyLine]) line) :=
      meets_bind (still_parseExpr hs) fun _ => meets_bind (still_expect _) fun _ =>
        still_checkExprDepth _ _
    exact meets_ite (meets_bind still_advance fun _ => hbody) hbody

theorem still_parsePrimary : Still (parsePrimary sub ctx) := by
  have hlit : ∀ e : Expr, Still (advance >>= fun _ => pure e) :=
    fun e => meets_bind still_advance fun _ => meets_pure e
  refine meets_bind (meets_gets _) fun line => meets_bind (meets_gets _) fun tok => ?_
  split
  · exact hlit _
  · exact hlit _
  · exact hlit _
  · exact meets_bind still_advance fun _ => meets_bind (still_parseParts _ _) fun _ =>
      still_checkExprDepth _ _
  · exact hlit _
  · exact hlit _
  · exact hlit _
  · exact hlit _
  · exact meets_bind still_advance fun _ => meets_bind (still_expect _) fun _ =>
      meets_bind (still_parseArgs h hs) fun _ => meets_bind (still_expect _) fun _ =>
        still_checkExprDepth _ _
  · exact meets_bind still_advance fun _ => meets_bind (still_parseExpr hs) fun _ =>
      meets_bind (still_expect _) fun _ => meets_pure _
  · exact still_parseListLiteral h hs
  · exact still_parseDictLiteral h hs
  · exact still_parseAnonymousFn h hs
  · exact meets_bind still_advance fun _ => still_fail _ _
  · exact meets_bind still_advance fun _ => still_fail _ _
  · exact still_fail _ _

theorem still_parseCall : Still (parseCall sub ctx) := by
  refine meets_bind (still_parsePrimary h hs) fun e =>
    still_loop (takesRounds_callStep h) (fun e => ?_) e
  refine meets_bind (meets_gets _) fun line => meets_bind (meets_gets _) fun mark => ?_
  split
  · exact meets_bind still_advance fun _ => meets_bind (still_parseArgs h hs) fun _ =>
      meets_bind (still_expect _) fun _ => meets_bind (still_checkExprDepth _ _) fun _ =>
        meets_pure _
  · exact meets_bind still_advance fun _ => meets_bind (still_parseExpr hs) fun _ =>
      meets_bind (still_expect _) fun _ => meets_bind (still_checkExprDepth _ _) fun _ =>
        meets_pure _
  · exact meets_pure _

omit h in
theorem still_unaryOperation (op : UnaryOpKind) : Still (unaryOperation sub ctx op) :=
  meets_bind (meets_gets _) fun _ => meets_bind still_advance fun _ =>
    meets_bind (still_withParseDepth fun hd => (hs hd).parseUnary _ rfl) fun _ =>
      still_checkExprDepth _ _

theorem still_parseUnary : Still (parseUnary sub ctx) := by
  refine meets_bind (meets_gets _) fun mark => ?_
  split
  · exact still_unaryOperation hs _
  · exact still_unaryOperation hs _
  · exact still_parseCall h hs

omit h hs in
theorem still_leftAssoc {ops : Mark → Option BinOpKind} (hops : ops .eof = none)
    {operand : P Expr} (hframed : Framed operand) (hoperand : Still operand) :
    Still (leftAssoc ops operand) := by
  refine meets_bind hoperand fun left =>
    still_loop (takesRounds_operandStep hops hframed) (fun left => ?_) left
  refine meets_bind (meets_gets _) fun mark => ?_
  split
  · exact meets_bind still_advance fun _ => meets_bind hoperand fun _ =>
      meets_bind (meets_gets _) fun _ => meets_bind (still_checkExprDepth _ _) fun _ =>
        meets_pure _
  · exact meets_pure _

theorem still_parseOr : Still (parseOr sub ctx) := by
  have hunary := reads_parseUnary h
  have hmulDiv : Reads (parseMulDiv sub ctx) := reads_leftAssoc rfl hunary
  have haddSub : Reads (parseAddSub sub ctx) := reads_leftAssoc rfl hmulDiv
  have hcomparison : Reads (parseComparison sub ctx) := reads_leftAssoc rfl haddSub
  have hand : Reads (parseAnd sub ctx) := reads_leftAssoc rfl hcomparison
  exact still_leftAssoc rfl hand.framed <| still_leftAssoc rfl hcomparison.framed <|
    still_leftAssoc rfl haddSub.framed <| still_leftAssoc rfl hmulDiv.framed <|
      still_leftAssoc rfl hunary.framed <| still_parseUnary h hs

end

theorem level_stills : ∀ {n depth : Nat}, depth ≤ maxAstDepth → maxAstDepth < depth + n →
    (level n).Stills depth := by
  intro n
  induction n with
  | zero => intro depth hle hlt; omega
  | succ n ih =>
    intro depth _ hlt
    have hruns : ∀ ctx : Ctx, ctx.depth = depth → ctx.depth < maxAstDepth →
        (level n).Runs (ctx.depth + 1) := fun ctx hctx hdepth => level_runs hdepth (by omega)
    have hstills : ∀ ctx : Ctx, ctx.depth = depth → ctx.depth < maxAstDepth →
        (level n).Stills (ctx.depth + 1) := fun ctx hctx hdepth => ih hdepth (by omega)
    exact ⟨fun ctx hctx => still_parseOr (hruns ctx hctx) (hstills ctx hctx),
      fun ctx hctx => still_parseUnary (hruns ctx hctx) (hstills ctx hctx)⟩

end Tsumugi.Syntax
