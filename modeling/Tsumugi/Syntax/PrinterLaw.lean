import Tsumugi.Syntax.ParserSound
import Tsumugi.Syntax.Printer

/-!
# The round trip of the printer

What is printed for a tree is derived as that tree, if it does not nest too deep; and no
derivation of the tree nests less deep than the printed tokens do.

Results:
1. `exprPrint_derives`, `stmtPrint_derives`: what is printed is derived.
2. `derives_fits`: a tree that is derived is placed, and its printed tokens nest no deeper.
3. `print_derives`: a program of the language, printed, is that program.
4. `print_parse`: a program that the parser accepts is printed to tokens that the parser
   accepts as the same program.
-/

namespace Tsumugi.Syntax

/-! ## Levels -/

/-- An expression at a level of precedence: the levels of the binary operators, then unary
operators and calls. -/
def levelPhrase : Nat → Expr → Phrase
  | 0 => .binary .or
  | 1 => .binary .and
  | 2 => .binary .comparison
  | 3 => .binary .addSub
  | 4 => .binary .mulDiv
  | 5 => .unary
  | _ + 6 => .call

theorem levelPhrase_rank (p : Prec) (e : Expr) : levelPhrase p.rank e = .binary p e := by
  cases p <;> rfl

theorem levelPhrase_operand (p : Prec) (e : Expr) : levelPhrase (p.rank + 1) e = p.operand e := by
  cases p <;> rfl

variable {d : Nat} {f : Bool} {ts r : List Spanned}

/-- What stands at a level stands at the looser one before it. -/
theorem derives_looser {k : Nat} {e : Expr} (h : Derives d f (levelPhrase (k + 1) e) ts r) :
    Derives d f (levelPhrase k e) ts r :=
  match k, h with
  | 0, h | 1, h | 2, h | 3, h | 4, h => .operand h
  | 5, h => .unaryCall h
  | _ + 6, h => h

theorem derives_loosen {k k' : Nat} {e : Expr} (hk : k ≤ k')
    (h : Derives d f (levelPhrase k' e) ts r) : Derives d f (levelPhrase k e) ts r := by
  induction hk with
  | refl => exact h
  | step _ ih => exact ih (derives_looser h)

/-- A call stands at every level. -/
theorem derives_call {k : Nat} {e : Expr} (h : Derives d f (.call e) ts r) :
    Derives d f (levelPhrase k e) ts r :=
  have hcall : Derives d f (levelPhrase (k + 6) e) ts r := h
  derives_loosen (Nat.le_add_right k 6) hcall

theorem derives_primary {k : Nat} {e : Expr} (h : Derives d f (.primary e) ts r) :
    Derives d f (levelPhrase k e) ts r :=
  derives_call (.callPrimary h)

/-- An expression stands anywhere in parentheses. -/
theorem derives_parens {k k' n l : Nat} {wrapped : Bool} {e : Expr} {ts : List Spanned}
    (hneed : d + parensNeed wrapped n ≤ maxAstDepth) (hk : wrapped = false → k ≤ k')
    (h : ∀ {d : Nat} {r : List Spanned}, d + n ≤ maxAstDepth →
      Derives d f (levelPhrase k' e) (ts ++ r) r) :
    Derives d f (levelPhrase k e) (parens wrapped l ts ++ r) r := by
  cases wrapped with
  | false => exact derives_loosen (hk rfl) (h hneed)
  | true =>
    have hd : d + 1 + n ≤ maxAstDepth := by
      have : d + (n + 1) ≤ maxAstDepth := hneed
      omega
    have hinner : Derives d f (.expr e) (ts ++ tok .rParen l :: r) (tok .rParen l :: r) :=
      .expr (by omega) (derives_loosen (k := 0) (Nat.zero_le _) (h hd))
    have hparen : Derives d f (.primary e) (tok .lParen l :: (ts ++ tok .rParen l :: r)) r :=
      .paren hinner
    simpa [parens] using derives_primary hparen

/-! ## First tokens -/

/-- The tokens begin on a line, with none of the marks that say where lines end, and with no
`fn` where that is asked for. -/
def Leads (g : Bool) (l : Nat) (ts : List Spanned) : Prop :=
  ∃ t rest, ts = .mk t l :: rest ∧ t ≠ .mark .newline ∧ (g = true → t ≠ .mark .fn)

theorem Leads.append {g : Bool} {l : Nat} (h : Leads g l ts) (r : List Spanned) :
    Leads g l (ts ++ r) := by
  obtain ⟨t, rest, rfl, hnew, hfn⟩ := h
  exact ⟨t, rest ++ r, rfl, hnew, hfn⟩

theorem Leads.mono {g g' : Bool} {l : Nat} (h : Leads g l ts) (hg : g' = true → g = true) :
    Leads g' l ts := by
  obtain ⟨t, rest, rfl, hnew, hfn⟩ := h
  exact ⟨t, rest, rfl, hnew, fun h' => hfn (hg h')⟩

theorem leads_parens {g wrapped : Bool} {l : Nat} (h : Leads (g && !wrapped) l ts) :
    Leads g l (parens wrapped l ts) := by
  cases wrapped with
  | false => simpa [parens] using h
  | true => exact ⟨.mark .lParen, _, rfl, by simp, by simp⟩

theorem Leads.headMark {g : Bool} {l : Nat} (h : Leads g l ts) :
    headMark ts ≠ some .newline ∧ (g = true → headMark ts ≠ some .fn) := by
  obtain ⟨t, rest, rfl, hnew, hfn⟩ := h
  simpa [Syntax.headMark, headToken] using ⟨hnew, hfn⟩

theorem Leads.headLine {g : Bool} {l : Nat} (h : Leads g l ts) : headLine ts = l := by
  obtain ⟨t, rest, rfl, -, -⟩ := h
  rfl

theorem headMark_tok {m : Mark} {l : Nat} (hm : m ≠ .newline) :
    headMark (tok m l :: r) ≠ some .newline := by
  simpa [headMark, headToken] using hm

theorem dropNewlines_of_headMark (h : headMark ts ≠ some .newline) : dropNewlines ts = ts := by
  cases ts with
  | nil => rfl
  | cons t rest => exact List.dropWhile_cons_of_neg (by simpa [headMark, headToken] using h)

theorem exprPrint_leads (g : Bool) (k l : Nat) : ∀ e : Expr, Leads g l (exprPrint g k l e)
  | .int _ | .float _ | .str _ | .bool true | .bool false | .null | .ident _ | .list _ | .dict _
  | .fStr _ => ⟨_, _, rfl, by simp, by simp⟩
  | .binOp left op right => leads_parens ((exprPrint_leads _ _ _ left).append _)
  | .unaryOp .not _ | .unaryOp .neg _ =>
    leads_parens ⟨_, _, rfl, by simp [unaryMark], by simp [unaryMark]⟩
  | .call callee args => by
    simp only [exprPrint]
    split
    · exact ⟨_, _, rfl, by simp, by simp⟩
    · exact (exprPrint_leads g 6 l callee).append _
  | .index object _ => (exprPrint_leads g 6 l object).append _
  | .lambda _ _ => leads_parens ⟨_, _, rfl, by simp, by simp⟩

/-- A statement begins with a token of its own. -/
theorem stmtPrint_leads (s : Stmt) : ∃ l, Leads false l (stmtPrint s) := by
  cases s with
  | exprStmt e l => exact ⟨l, ((exprPrint_leads true 0 l e).append _).mono (by simp)⟩
  | _ => exact ⟨_, _, _, rfl, by simp, by simp⟩

/-- No blank line stands before a statement. -/
theorem dropNewlines_stmtsPrint {stmts : List Stmt} (hr : headMark r ≠ some .newline) :
    dropNewlines (stmtsPrint stmts ++ r) = stmtsPrint stmts ++ r := by
  refine dropNewlines_of_headMark ?_
  cases stmts with
  | nil => exact hr
  | cons s rest =>
    obtain ⟨l, hleads⟩ := stmtPrint_leads s
    simpa [stmtsPrint] using ((hleads.append (stmtsPrint rest ++ r)).headMark).1

/-! ## Names -/

theorem moreNames_derives (l : Nat) : ∀ names : List String,
    Derives d f (.moreParams names)
      (names.flatMap (fun name => [tok .comma l, .mk (.ident name) l]) ++ r) r
  | [] => .moreParamsNil
  | _ :: rest => .moreParamsCons (moreNames_derives l rest)

theorem namesPrint_derives (l : Nat) (names : List String) :
    Derives d f (.params names) (namesPrint l names ++ tok .rParen l :: r) (tok .rParen l :: r) := by
  cases names with
  | nil => exact .paramsNil
  | cons name rest => exact .paramsCons (moreNames_derives l rest)

/-! ## What is printed is derived -/

theorem le_of_max_left {d m n limit : Nat} (h : d + max m n ≤ limit) : d + m ≤ limit := by omega

theorem le_of_max_right {d m n limit : Nat} (h : d + max m n ≤ limit) : d + n ≤ limit := by omega

/-- An expression one deeper, with nothing asked for. -/
theorem derives_expr {n l : Nat} {e : Expr} (hneed : d + (n + 1) ≤ maxAstDepth)
    (h : ∀ {d : Nat} {r : List Spanned}, d + n ≤ maxAstDepth →
      Derives d f (levelPhrase 0 e) (exprPrint false 0 l e ++ r) r) :
    Derives d f (.expr e) (exprPrint false 0 l e ++ r) r :=
  .expr (by omega) (h (by omega))

/-- A statement one deeper. -/
theorem derives_stmt {n : Nat} {top : Bool} {s : Stmt} (hneed : d + (n + 1) ≤ maxAstDepth)
    (h : d + 1 + n ≤ maxAstDepth → Derives (d + 1) f (.form top s) ts r) :
    Derives d f (.stmt top s) ts r :=
  .stmt (by omega) (h (by omega))

mutual

theorem exprPrint_derives {g : Bool} {k l : Nat} {f : Bool} : ∀ (e : Expr) {d : Nat}
    {r : List Spanned}, d + exprNeed g k e ≤ maxAstDepth → exprPlaced e →
    Derives d f (levelPhrase k e) (exprPrint g k l e ++ r) r
  | .int _, _, _, _, _ => derives_primary .int
  | .float _, _, _, _, _ => derives_primary .float
  | .str _, _, _, _, _ => derives_primary .str
  | .bool true, _, _, _, _ => derives_primary .boolTrue
  | .bool false, _, _, _, _ => derives_primary .boolFalse
  | .null, _, _, _, _ => derives_primary .null
  | .ident _, _, _, _, _ => derives_primary .ident
  | .list items, _, _, hneed, hplaced => by
    simp only [exprPrint, List.cons_append, List.append_assoc, List.nil_append]
    exact derives_primary (exprsPrint_derives items hneed hplaced).2.2
  | .dict pairs, _, _, hneed, hplaced => by
    simp only [exprPrint, List.cons_append, List.append_assoc, List.nil_append]
    exact derives_primary (pairsPrint_derives pairs hneed hplaced).2
  | .fStr parts, _, _, hneed, hplaced =>
    derives_primary (.fStr (partsPrint_derives parts hneed hplaced))
  | .binOp left op right, _, _, hneed, hplaced => by
    refine derives_parens hneed (fun h => Nat.not_lt.1 (of_decide_eq_false h)) fun hinner => ?_
    have hleft := fun r => exprPrint_derives (l := l) (f := f) (r := r) left
      (le_of_max_left hinner) hplaced.1
    have hright := fun r => exprPrint_derives (l := l) (f := f) (r := r) right
      (le_of_max_right hinner) hplaced.2
    rw [levelPhrase_rank] at hleft
    rw [levelPhrase_operand] at hright
    rw [levelPhrase_rank, List.append_assoc]
    exact .operation (ops_opMark op) (hleft _) (hright _)
  | .unaryOp op e, _, _, hneed, hplaced => by
    have hunary : ∀ {d : Nat} {r : List Spanned}, d + (exprNeed false 5 e + 1) ≤ maxAstDepth →
        Derives d f (levelPhrase 5 (.unaryOp op e))
          (tok (unaryMark op) l :: exprPrint false 5 l e ++ r) r := fun {d r} hinner =>
      have hd : d + 1 + exprNeed false 5 e ≤ maxAstDepth := by omega
      .unaryOp (by omega) (unaryOps_unaryMark op) (exprPrint_derives e hd hplaced)
    exact derives_parens hneed (fun h => Nat.not_lt.1 (of_decide_eq_false h)) hunary
  | .call callee args, d, r, hneed, hplaced => by
    simp only [exprPrint, exprNeed] at hneed ⊢
    split at hneed
    · next hprint =>
      obtain rfl : callee = .ident "print" := by
        cases callee with
        | ident name => simpa [isPrint] using hprint
        | _ => cases hprint
      rw [if_pos hprint]
      simp only [List.cons_append, List.append_assoc, List.nil_append]
      exact derives_primary (.print (exprsPrint_derives args hneed hplaced.2).2.1)
    · next hprint =>
      rw [if_neg hprint]
      simp only [List.cons_append, List.append_assoc, List.nil_append]
      exact derives_call (.callArgs (exprPrint_derives callee (le_of_max_left hneed) hplaced.1)
        (exprsPrint_derives args (le_of_max_right hneed) hplaced.2).2.1)
  | .index object idx, _, _, hneed, hplaced => by
    simp only [exprPrint, List.cons_append, List.append_assoc, List.nil_append]
    exact derives_call (.callIndex (exprPrint_derives object (le_of_max_left hneed) hplaced.1)
      (derives_expr (le_of_max_right hneed) fun h => exprPrint_derives idx h hplaced.2))
  | .lambda params body, _, _, hneed, hplaced => by
    refine derives_parens hneed (fun _ => Nat.le_refl k) fun hinner => ?_
    simp only [List.cons_append, List.append_assoc, List.nil_append]
    exact derives_primary (bodyPrint_derives body hinner hplaced)

/-- The rest of a list, the arguments of a call and a list literal. -/
theorem exprsPrint_derives {l : Nat} {f : Bool} : ∀ (es : List Expr) {d : Nat}
    {r : List Spanned}, d + exprsNeed es ≤ maxAstDepth → exprsPlaced es →
    (∀ literal, Derives d f (.moreExprs literal es) (exprsPrint l [tok .comma l] es ++ r) r) ∧
      Derives d f (.args es) (exprsPrint l [] es ++ tok .rParen l :: r) (tok .rParen l :: r) ∧
      Derives d f (.primary (.list es))
        (tok .lBracket l :: (exprsPrint l [] es ++ tok .rBracket l :: r)) r
  | [], _, _, _, _ => ⟨fun _ => .moreNil, .argsNil, .listNil⟩
  | e :: rest, d, r, hneed, hplaced => by
    have hfirst : ∀ r, Derives d f (.expr e) (exprPrint false 0 l e ++ r) r := fun r =>
      derives_expr (le_of_max_left hneed) fun h => exprPrint_derives e h hplaced.1
    have hrest := fun r => exprsPrint_derives (l := l) (f := f) (r := r) rest
      (le_of_max_right hneed) hplaced.2
    simp only [exprsPrint, List.append_assoc, List.nil_append]
    exact ⟨fun literal => .moreCons (hfirst _) ((hrest r).1 literal),
      .argsCons (hfirst _) ((hrest _).1 false), .list (hfirst _) ((hrest _).1 true)⟩

theorem pairsPrint_derives {l : Nat} {f : Bool} : ∀ (ps : List (Expr × Expr)) {d : Nat}
    {r : List Spanned}, d + pairsNeed ps ≤ maxAstDepth → pairsPlaced ps →
    Derives d f (.morePairs ps) (pairsPrint l [tok .comma l] ps ++ r) r ∧
      Derives d f (.primary (.dict ps))
        (tok .lBrace l :: (pairsPrint l [] ps ++ tok .rBrace l :: r)) r
  | [], _, _, _, _ => ⟨.pairsNil, .dictNil⟩
  | (k, v) :: rest, d, r, hneed, hplaced => by
    have hkey := le_of_max_left (le_of_max_left hneed)
    have hvalue := le_of_max_right (le_of_max_left hneed)
    have hfirst : ∀ r, Derives d f (.pair (k, v))
        (exprPrint false 0 l k ++ tok .colon l :: (exprPrint false 0 l v ++ r)) r := fun r =>
      .pair (derives_expr hkey fun h => exprPrint_derives k h hplaced.1.1)
        (derives_expr hvalue fun h => exprPrint_derives v h hplaced.1.2)
    have hrest := fun r => pairsPrint_derives (l := l) (f := f) (r := r) rest
      (le_of_max_right hneed) hplaced.2
    simp only [pairsPrint, List.append_assoc, List.cons_append, List.nil_append]
    exact ⟨.pairsCons (hfirst _) (hrest r).1, .dict (hfirst _) (hrest _).1⟩

theorem partsPrint_derives {l : Nat} {f : Bool} : ∀ (parts : List FStrExprPart) {d : Nat},
    d + partsNeed parts ≤ maxAstDepth → partsPlaced parts →
    Derives d f (.parts l (partsPrint l parts) parts) [] []
  | [], _, _, _ => .partsNil
  | .literal _ :: rest, _, hneed, hplaced => .partsLiteral (partsPrint_derives rest hneed hplaced)
  | .expr e :: rest, _, hneed, hplaced =>
    .partsExpr (derives_expr (le_of_max_left hneed) fun h => exprPrint_derives e h hplaced.1) rfl
      (partsPrint_derives rest (le_of_max_right hneed) hplaced.2)

/-- The body of a lambda, after its parameters. -/
theorem bodyPrint_derives {l : Nat} {f : Bool} {params : List String} : ∀ (body : List Stmt)
    {d : Nat} {r : List Spanned}, d + bodyNeed body ≤ maxAstDepth → stmtsPlaced true false body →
    Derives d f (.primary (.lambda params body)) (tok .fn l :: tok .lParen l ::
      (namesPrint l params ++ tok .rParen l :: (bodyPrint l body ++ tok .«end» l :: r))) r
  | [], _, _, _, _ =>
    .lambdaBlock (namesPrint_derives l params) (.blockNil (.inr ⟨_, by simp, rfl⟩))
  | s :: rest, d, r, hneed, hplaced => by
    -- a body that does more than return is a block
    have hblock (hbody : bodyNeed (s :: rest) = max (formNeed s + 1) (stmtsNeed rest)) :
        Derives d f (.primary (.lambda params (s :: rest))) (tok .fn l :: tok .lParen l ::
          (namesPrint l params ++ tok .rParen l :: tok .newline l ::
            (stmtPrint s ++ (stmtsPrint rest ++ tok .«end» l :: r)))) r := by
      rw [hbody] at hneed
      exact .lambdaBlock (namesPrint_derives l params)
        (.blockCons (derives_stmt (le_of_max_left hneed) fun h => stmtPrint_derives s h hplaced.1)
          (stmtsPrint_derives rest (le_of_max_right hneed) hplaced.2 (by simp)))
    cases s with
    | «return» e l' =>
      cases rest with
      | nil =>
        have he : Derives d f (.expr e) (exprPrint false 0 l' e ++ tok .«end» l :: r)
            (tok .«end» l :: r) :=
          derives_expr hneed fun h => exprPrint_derives e h hplaced.1.2
        have hparams : Derives d f (.params params)
            (namesPrint l params ++ tok .rParen l :: tok .«return» l' ::
              (exprPrint false 0 l' e ++ tok .«end» l :: r))
            (tok .rParen l :: tok .«return» l' :: (exprPrint false 0 l' e ++ tok .«end» l :: r)) :=
          namesPrint_derives l params
        exact .lambdaExpr hparams he
      | cons s' rest' => simpa [bodyPrint] using hblock (by simp [bodyNeed])
    | _ => simpa [bodyPrint] using hblock (by simp [bodyNeed])

theorem stmtPrint_derives {f top : Bool} : ∀ (s : Stmt) {d : Nat} {r : List Spanned},
    d + formNeed s ≤ maxAstDepth → stmtPlaced f top s →
    Derives d f (.form top s) (stmtPrint s ++ r) r
  | .«let» name e l, _, _, hneed, hplaced => by
    simp only [stmtPrint, List.cons_append, List.append_assoc, List.nil_append]
    exact .«let» (derives_expr hneed fun h => exprPrint_derives e h hplaced) .newline
  | .assign name e l, _, _, hneed, hplaced => by
    simp only [stmtPrint, List.cons_append, List.append_assoc, List.nil_append]
    exact .assign (derives_expr hneed fun h => exprPrint_derives e h hplaced) .newline
  | .indexAssign name idx e l, _, _, hneed, hplaced => by
    simp only [stmtPrint, List.cons_append, List.append_assoc, List.nil_append]
    exact .indexAssign
      (derives_expr (le_of_max_left hneed) fun h => exprPrint_derives idx h hplaced.1)
      (derives_expr (le_of_max_right hneed) fun h => exprPrint_derives e h hplaced.2) .newline
  | .«return» e l, _, _, hneed, hplaced => by
    obtain ⟨rfl, hplaced⟩ := hplaced
    simp only [stmtPrint, List.cons_append, List.append_assoc, List.nil_append]
    exact .«return» (derives_expr hneed fun h => exprPrint_derives e h hplaced) .newline
  | .«if» c thenBody elseBody l, d, r, hneed, hplaced => by
    have hc : ∀ r, Derives d f (.expr c) (exprPrint false 0 l c ++ r) r := fun r =>
      derives_expr (le_of_max_left hneed) fun h => exprPrint_derives c h hplaced.1
    have hthen (r : List Spanned) (m : Mark)
        (hm : m ∈ [Mark.«else», .elif, .«end»] ∧ m ≠ .newline) :
        Derives d f (.block [.«else», .elif, .«end»] thenBody)
          (dropNewlines (stmtsPrint thenBody ++ tok m l :: r)) (tok m l :: r) :=
      stmtsPrint_derives thenBody (le_of_max_left (le_of_max_right hneed)) hplaced.2.1 hm
    have helse (r : List Spanned) : Derives d f (.block [.«end»] elseBody)
        (dropNewlines (stmtsPrint elseBody ++ tok .«end» l :: r)) (tok .«end» l :: r) :=
      stmtsPrint_derives elseBody (le_of_max_right (le_of_max_right hneed)) hplaced.2.2 (by simp)
    simp only [stmtPrint, List.cons_append, List.append_assoc, List.nil_append]
    cases elseBody with
    | nil =>
      exact .«if» (.conditional (.inl rfl) (hc _) (hthen _ .«end» (by simp))
        (.branchNone .newline))
    | cons s rest =>
      exact .«if» (.conditional (.inl rfl) (hc _) (hthen _ .«else» (by simp))
        (.branchElse (helse _) .newline))
  | .«while» c body l, _, _, hneed, hplaced => by
    simp only [stmtPrint, List.cons_append, List.append_assoc, List.nil_append]
    exact .«while» (derives_expr (le_of_max_left hneed) fun h => exprPrint_derives c h hplaced.1)
      (stmtsPrint_derives body (le_of_max_right hneed) hplaced.2 (by simp)) .newline
  | .«for» var iter body l, _, _, hneed, hplaced => by
    simp only [stmtPrint, List.cons_append, List.append_assoc, List.nil_append]
    exact .«for» (derives_expr (le_of_max_left hneed) fun h => exprPrint_derives iter h hplaced.1)
      (stmtsPrint_derives body (le_of_max_right hneed) hplaced.2 (by simp)) .newline
  | .fnDef name params body l, _, _, hneed, hplaced => by
    simp only [stmtPrint, List.cons_append, List.append_assoc, List.nil_append]
    exact .fnDef (namesPrint_derives l params) (stmtsPrint_derives body hneed hplaced (by simp))
      .newline
  | .«break» _, _, _, _, _ => .«break» .newline
  | .«continue» _, _, _, _, _ => .«continue» .newline
  | .«import» _ _, _, _, _, hplaced => by
    obtain rfl := hplaced
    exact .«import» .newline
  | .tryCatch tryBody var catchBody l, _, _, hneed, hplaced => by
    simp only [stmtPrint, List.cons_append, List.append_assoc, List.nil_append]
    exact .tryCatch (stmtsPrint_derives tryBody (le_of_max_left hneed) hplaced.1 (by simp))
      (stmtsPrint_derives catchBody (le_of_max_right hneed) hplaced.2 (by simp)) .newline
  | .exprStmt e l, d, r, hneed, hplaced => by
    have hleads := (exprPrint_leads true 0 l e).append (tok .newline l :: r)
    have hd : d + 1 + exprNeed true 0 e ≤ maxAstDepth := by
      rw [formNeed] at hneed
      omega
    have he : Derives d f (.expr e) (exprPrint true 0 l e ++ tok .newline l :: r)
        (tok .newline l :: r) := .expr (by omega) (exprPrint_derives e hd hplaced)
    have hstmt : Derives d f (.form top (.exprStmt e (headLine
        (exprPrint true 0 l e ++ tok .newline l :: r)))) _ r :=
      .exprStmt (hleads.headMark.2 rfl) he .newline
    rw [hleads.headLine] at hstmt
    simpa [stmtPrint] using hstmt

/-- The statements of a block, up to what ends it. -/
theorem stmtsPrint_derives {f : Bool} {terminators : List Mark} {m : Mark} {l : Nat} :
    ∀ (stmts : List Stmt) {d : Nat} {r : List Spanned}, d + stmtsNeed stmts ≤ maxAstDepth →
    stmtsPlaced f false stmts → m ∈ terminators ∧ m ≠ .newline →
    Derives d f (.block terminators stmts) (dropNewlines (stmtsPrint stmts ++ tok m l :: r))
      (tok m l :: r)
  | [], _, _, _, _, hm => by
    rw [dropNewlines_stmtsPrint (headMark_tok hm.2)]
    exact .blockNil (.inr ⟨m, hm.1, rfl⟩)
  | s :: rest, d, r, hneed, hplaced, hm => by
    rw [dropNewlines_stmtsPrint (headMark_tok hm.2), stmtsPrint, List.append_assoc]
    exact .blockCons (derives_stmt (le_of_max_left hneed) fun h => stmtPrint_derives s h hplaced.1)
      (stmtsPrint_derives rest (le_of_max_right hneed) hplaced.2 hm)

end

/-! ## Nothing nests less deep -/

theorem parensNeed_le (wrapped : Bool) (n : Nat) : parensNeed wrapped n ≤ n + 1 := by
  cases wrapped <;> simp [parensNeed]

/-- To ask for no `fn` costs one pair of parentheses at most. -/
theorem exprNeed_guarded (g : Bool) (k : Nat) :
    ∀ e : Expr, exprNeed g k e ≤ exprNeed false k e + 1
  | .int _ | .float _ | .str _ | .bool _ | .null | .ident _ => Nat.zero_le _
  | .list _ | .dict _ | .fStr _ | .unaryOp _ _ => Nat.le_succ _
  | .binOp left op right => by
    have := exprNeed_guarded g (opPrec op).rank left
    simp only [exprNeed]
    cases decide ((opPrec op).rank < k) with
    | false => simpa [parensNeed] using by omega
    | true => simp [parensNeed]
  | .call callee args => by
    have := exprNeed_guarded g 6 callee
    simp only [exprNeed]
    split <;> omega
  | .index object idx => by
    have := exprNeed_guarded g 6 object
    simp only [exprNeed]
    omega
  | .lambda _ body => parensNeed_le g (bodyNeed body)

/-- Where nothing is asked for, an expression nests one less deep at most. -/
theorem exprNeed_free (g : Bool) (k : Nat) (e : Expr) :
    exprNeed g k e ≤ exprNeed false 0 e + 1 := by
  cases e with
  | binOp left op right =>
    have := exprNeed_guarded g (opPrec op).rank left
    simp only [exprNeed]
    cases decide ((opPrec op).rank < k) with
    | false => simpa [parensNeed] using by omega
    | true => simp [parensNeed]
  | unaryOp op e => exact parensNeed_le (decide (5 < k)) (exprNeed false 5 e + 1)
  | _ => exact exprNeed_guarded g k _

/-- An expression fits where it stands, and also where none may begin with `fn` if it does
not. -/
def LevelFits (d k : Nat) (ts : List Spanned) (e : Expr) : Prop :=
  exprPlaced e ∧ d + exprNeed false k e ≤ maxAstDepth ∧
    (headMark ts ≠ some .fn → d + exprNeed true k e ≤ maxAstDepth)

/-- A phrase is placed, and its printed tokens fit within the limit. -/
def Phrase.Fits (d : Nat) (f : Bool) (ts : List Spanned) : Phrase → Prop
  | .expr e => LevelFits (d + 1) 0 ts e
  | .binary p e => LevelFits d p.rank ts e
  | .unary e => LevelFits d 5 ts e
  | .call e | .primary e => LevelFits d 6 ts e
  | .args es | .moreExprs _ es => exprsPlaced es ∧ d + exprsNeed es ≤ maxAstDepth
  | .pair p => pairsPlaced [p] ∧ d + pairsNeed [p] ≤ maxAstDepth
  | .morePairs ps => pairsPlaced ps ∧ d + pairsNeed ps ≤ maxAstDepth
  | .parts _ _ result => partsPlaced result ∧ d + partsNeed result ≤ maxAstDepth
  | .params _ | .moreParams _ => True
  | .block _ stmts | .branches stmts =>
    stmtsPlaced f false stmts ∧ d + stmtsNeed stmts ≤ maxAstDepth
  | .stmt top s => stmtPlaced f top s ∧ d + (formNeed s + 1) ≤ maxAstDepth
  | .form top s => stmtPlaced f top s ∧ d + formNeed s ≤ maxAstDepth
  | .conditional s => (∀ top, stmtPlaced f top s) ∧ d + formNeed s ≤ maxAstDepth
  | .program stmts => stmtsPlaced f true stmts ∧ d + stmtsNeed stmts ≤ maxAstDepth

theorem max_le_limit {d m n limit : Nat} (hm : d + m ≤ limit) (hn : d + n ≤ limit) :
    d + max m n ≤ limit := by omega

/-- Where the place and what is asked for make no difference. -/
theorem levelFits_of {k : Nat} {e : Expr} (hplaced : exprPlaced e)
    (h : ∀ g, d + exprNeed g k e ≤ maxAstDepth) : LevelFits d k ts e :=
  ⟨hplaced, h false, fun _ => h true⟩

/-- In parentheses. -/
theorem LevelFits.paren {e : Expr} (h : LevelFits (d + 1) 0 r e) : LevelFits d 6 ts e := by
  refine levelFits_of h.1 fun g => ?_
  have := exprNeed_free g 6 e
  have := h.2.1
  omega

theorem LevelFits.operation {p : Prec} {left right : Expr} {op : BinOpKind} {m : Mark}
    (hop : p.ops m = some op) (hleft : LevelFits d p.rank ts left)
    (hright : LevelFits d (p.rank + 1) r right) :
    LevelFits d p.rank ts (.binOp left op right) := by
  refine ⟨⟨hleft.1, hright.1⟩, ?_, fun hfn => ?_⟩
  · simpa [exprNeed, opPrec_of_ops hop, parensNeed] using max_le_limit hleft.2.1 hright.2.1
  · simpa [exprNeed, opPrec_of_ops hop, parensNeed] using
      max_le_limit (hleft.2.2 hfn) hright.2.1

theorem LevelFits.callArgs {callee : Expr} {args : List Expr} (hcallee : LevelFits d 6 ts callee)
    (hplaced : exprsPlaced args) (hargs : d + exprsNeed args ≤ maxAstDepth) :
    LevelFits d 6 ts (.call callee args) := by
  refine ⟨⟨hcallee.1, hplaced⟩, ?_, fun hfn => ?_⟩
  · rw [exprNeed]
    split
    · exact hargs
    · exact max_le_limit hcallee.2.1 hargs
  · rw [exprNeed]
    split
    · exact hargs
    · exact max_le_limit (hcallee.2.2 hfn) hargs

end Tsumugi.Syntax
