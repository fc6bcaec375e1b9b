import Tsumugi.Syntax.Grammar

/-!
# What derivations look like

Results:
1. `derives_begins`: which tokens a phrase can begin with;
2. `derives_scan`: brackets are balanced in a phrase, so that a scan for the closing bracket
   of an outer pair passes over it;
3. `exprStmt_notAssign`, `exprStmt_notIndexAssign`: an expression statement does not look
   like an assignment.
-/

namespace Tsumugi.Syntax

/-! ## First tokens -/

/-- The tokens that an expression can begin with. -/
def Token.beginsExpr : Token → Bool
  | .int _ | .float _ | .str _ | .fStr _ | .ident _ => true
  | .mark m => m ∈ [.true, .false, .null, .print, .lParen, .lBracket, .lBrace, .fn, .not, .minus]
  | .unknown _ | .error _ => false

/-- The tokens that a statement can begin with, at the top level and in a function. -/
def Token.BeginsStmt (inFn top : Bool) (t : Token) : Prop :=
  t.beginsExpr = true ∨ ∃ m, t = .mark m ∧ m.beginsStmt = true ∧
    (m = .«return» → inFn = true) ∧ (m = .«import» → top = true)

/-- What is known of the first token of a phrase. -/
def Phrase.Begins (inFn : Bool) (ts : List Spanned) : Phrase → Prop
  | .expr _ | .binary _ _ | .unary _ | .call _ | .primary _ | .pair _ =>
    (headToken ts).beginsExpr = true
  | .stmt top _ | .form top _ => (headToken ts).BeginsStmt inFn top
  | _ => True

@[simp] theorem headToken_cons (t : Spanned) (ts : List Spanned) :
    headToken (t :: ts) = t.token := rfl

@[simp] theorem headMark_cons (t : Spanned) (ts : List Spanned) :
    headMark (t :: ts) = t.token.mark? := rfl

@[simp] theorem headLine_cons (t : Spanned) (ts : List Spanned) :
    headLine (t :: ts) = t.line := rfl

@[simp] theorem mark?_mark (m : Mark) : (Token.mark m).mark? = some m := rfl

/-- A keyword that is no `return` and no `import`. -/
theorem begins_keyword {inFn top : Bool} {m : Mark} (hm : m.beginsStmt = true)
    (hreturn : m ≠ .«return») (himport : m ≠ .«import») : (Token.mark m).BeginsStmt inFn top :=
  .inr ⟨m, rfl, hm, fun h => absurd h hreturn, fun h => absurd h himport⟩

theorem derives_begins {d : Nat} {f : Bool} {φ : Phrase} {ts r : List Spanned}
    (h : Derives d f φ ts r) : φ.Begins f ts := by
  induction h with
  | expr _ _ ih => exact ih
  | @operand _ _ p _ _ _ _ ih => cases p <;> exact ih
  | operation _ _ _ ih _ => exact ih
  | unaryCall _ ih => exact ih
  | @unaryOp _ _ _ _ m _ _ _ _ hop _ _ => cases m <;> first | rfl | cases hop
  | callPrimary _ ih => exact ih
  | callArgs _ _ ih _ => exact ih
  | callIndex _ _ ih _ => exact ih
  | pair _ _ ih _ => exact ih
  | stmt _ _ ih => exact ih
  | exprStmt _ _ _ ih => exact .inl ih
  | «return» => exact .inr ⟨_, rfl, rfl, fun _ => rfl, fun h => by cases h⟩
  | «import» => exact .inr ⟨_, rfl, rfl, fun h => (by cases h), fun _ => rfl⟩
  | assign | indexAssign => exact .inl rfl
  | «let» | «if» | «while» | «for» | fnDef | «break» | «continue» | tryCatch =>
    exact begins_keyword rfl (by decide) (by decide)
  | int | float | str | boolTrue | boolFalse | null | ident | print | paren | listNil | list
  | dictNil | dict | fStr | lambdaBlock | lambdaExpr => rfl
  | _ => trivial

/-- A call begins with a primary, not with a unary operator. -/
theorem call_begins {d : Nat} {f : Bool} {φ : Phrase} {ts r : List Spanned}
    (h : Derives d f φ ts r) {e : Expr} (hφ : φ = .call e ∨ φ = .primary e) :
    headMark ts ≠ some .not ∧ headMark ts ≠ some .minus := by
  induction h generalizing e with
  | callPrimary _ ih => exact ih (.inr rfl)
  | callArgs _ _ ih _ => exact ih (.inl rfl)
  | callIndex _ _ ih _ => exact ih (.inl rfl)
  | int | float | str | boolTrue | boolFalse | null | ident | print | paren | listNil | list
  | dictNil | dict | fStr | lambdaBlock | lambdaExpr => exact ⟨nofun, nofun⟩
  | _ => rcases hφ with hφ | hφ <;> cases hφ

/-- The marks that end a block. -/
def Mark.endsBlock (m : Mark) : Bool := m ∈ [.«else», .elif, .«end», .«catch»]

theorem beginsExpr_mark {t : Token} {m : Mark} (h : t.beginsExpr = true) (hm : t.mark? = some m) :
    m ∈ [Mark.true, .false, .null, .print, .lParen, .lBracket, .lBrace, .fn, .not, .minus] := by
  rw [Token.mark?_eq_some.1 hm] at h
  simpa [Token.beginsExpr] using h

theorem beginsStmt_mark {inFn top : Bool} {t : Token} {m : Mark} (h : t.BeginsStmt inFn top)
    (hm : t.mark? = some m) :
    m ≠ .eof ∧ m ≠ .newline ∧ m.endsBlock = false ∧ (m = .«return» → inFn = true) ∧
      (m = .«import» → top = true) := by
  rcases h with h | ⟨m', rfl, hbegins, hreturn, himport⟩
  · have hmem := beginsExpr_mark h hm
    cases m <;> first | exact absurd hmem (by decide) | exact ⟨by decide, by decide, rfl, nofun, nofun⟩
  · cases hm
    refine ⟨?_, ?_, ?_, hreturn, himport⟩
    · rintro rfl
      cases hbegins
    · rintro rfl
      cases hbegins
    · cases m <;> first | rfl | cases hbegins

/-! ## Brackets -/

/-- The marks that the scan looks at. -/
def Mark.scanned (m : Mark) : Bool := m ∈ [.lBracket, .rBracket, .eof]

theorem scan_skip {k : Nat} {t : Spanned} {ts : List Spanned}
    (h : ∀ m, t.token.mark? = some m → m.scanned = false) :
    scanIndexAssign k (t :: ts) = scanIndexAssign k ts := by
  rw [scanIndexAssign]
  split
  · next hm => exact absurd (h _ hm) (by decide)
  · next hm => exact absurd (h _ hm) (by decide)
  · next hm => exact absurd (h _ hm) (by decide)
  · rfl

@[simp] theorem scan_mark {k : Nat} {m : Mark} {l : Nat} {ts : List Spanned}
    (h : m.scanned = false) : scanIndexAssign k (tok m l :: ts) = scanIndexAssign k ts :=
  scan_skip fun m' hm => by simp only [Spanned.token_mk, mark?_mark, Option.some.injEq] at hm; rwa [← hm]

@[simp] theorem scan_ident {k : Nat} {name : String} {l : Nat} {ts : List Spanned} :
    scanIndexAssign k (.mk (.ident name) l :: ts) = scanIndexAssign k ts :=
  scan_skip fun m hm => by cases hm

@[simp] theorem scan_lBracket {k l : Nat} {ts : List Spanned} :
    scanIndexAssign k (tok .lBracket l :: ts) = scanIndexAssign (k + 1) ts := by
  rw [scanIndexAssign]
  rfl

@[simp] theorem scan_rBracket {k l : Nat} {ts : List Spanned} :
    scanIndexAssign (k + 2) (tok .rBracket l :: ts) = scanIndexAssign (k + 1) ts := by
  rw [scanIndexAssign]
  simp

/-- The bracket that closes the first one. -/
@[simp] theorem scan_last {l : Nat} {ts : List Spanned} :
    scanIndexAssign 1 (tok .rBracket l :: ts) = decide (headMark ts = some .assign) := by
  rw [scanIndexAssign]
  simp only [Spanned.token_mk, mark?_mark, Nat.le_refl, if_true]
  cases ts <;> rfl

@[simp] theorem scan_dropNewlines (k : Nat) (ts : List Spanned) :
    scanIndexAssign k (dropNewlines ts) = scanIndexAssign k ts := by
  induction ts with
  | nil => rfl
  | cons t ts ih =>
    by_cases h : t.token.mark? = some .newline
    · rw [dropNewlines, List.dropWhile_cons_of_pos (by simpa using h), ← dropNewlines, ih]
      refine (scan_skip fun m hm => ?_).symm
      rw [h, Option.some.injEq] at hm
      rw [← hm]
      rfl
    · rw [dropNewlines, List.dropWhile_cons_of_neg (by simpa using h)]

@[simp] theorem scan_afterReturn (k : Nat) (ts : List Spanned) :
    scanIndexAssign k (afterReturn ts) = scanIndexAssign k ts := by
  unfold afterReturn
  split
  · next h =>
    cases ts with
    | nil => rfl
    | cons t ts =>
      refine (scan_skip fun m hm => ?_).symm
      rw [headMark_cons, hm, Option.some.injEq] at h
      rw [h]
      rfl
  · rfl

theorem LineEnd.scan {k : Nat} {ts r : List Spanned} (h : LineEnd ts r) :
    scanIndexAssign k ts = scanIndexAssign k r := by
  cases h with
  | newline => exact scan_mark rfl
  | eof => rfl

theorem ops_scanned {p : Prec} {m : Mark} {op : BinOpKind} (h : p.ops m = some op) :
    m.scanned = false := by
  cases p <;> cases m <;> first | rfl | cases h

theorem unaryOps_scanned {m : Mark} {op : UnaryOpKind} (h : unaryOps m = some op) :
    m.scanned = false := by
  cases m <;> first | rfl | cases h

/-- A scan for the bracket that closes an outer one passes over a phrase. -/
theorem derives_scan {d : Nat} {f : Bool} {φ : Phrase} {ts r : List Spanned}
    (h : Derives d f φ ts r) (k : Nat) :
    scanIndexAssign (k + 1) ts = scanIndexAssign (k + 1) r := by
  induction h generalizing k with
  | expr _ _ ih | operand _ ih | unaryCall _ ih | callPrimary _ ih | stmt _ _ ih => exact ih k
  | operation hop _ _ ih ih' => rw [ih, scan_mark (ops_scanned hop), ih']
  | unaryOp _ hop _ ih => rw [scan_mark (unaryOps_scanned hop), ih]
  | callArgs _ _ ih ih' => rw [ih, scan_mark rfl, ih', scan_mark rfl]
  | callIndex _ _ ih ih' => rw [ih, scan_lBracket, ih', scan_rBracket]
  | argsCons _ _ ih ih' => rw [ih, ih']
  | moreTrailing => exact scan_mark rfl
  | moreCons _ _ ih ih' => rw [scan_mark rfl, ih, ih']
  | pair _ _ ih ih' => rw [ih, scan_mark rfl, ih']
  | pairsTrailing => exact scan_mark rfl
  | pairsCons _ _ ih ih' => rw [scan_mark rfl, ih, ih']
  | int | float | str | ident | fStr => exact scan_skip fun m hm => by cases hm
  | boolTrue | boolFalse | null => exact scan_mark rfl
  | print _ ih => rw [scan_mark rfl, scan_mark rfl, ih, scan_mark rfl]
  | paren _ ih => rw [scan_mark rfl, ih, scan_mark rfl]
  | listNil => rw [scan_lBracket, scan_rBracket]
  | list _ _ ih ih' => rw [scan_lBracket, ih, ih', scan_rBracket]
  | dictNil => rw [scan_mark rfl, scan_mark rfl]
  | dict _ _ ih ih' => rw [scan_mark rfl, ih, ih', scan_mark rfl]
  | lambdaBlock _ _ ih ih' =>
    rw [scan_mark rfl, scan_mark rfl, ih, scan_mark rfl, scan_mark rfl, ih', scan_mark rfl]
  | lambdaExpr _ _ ih ih' =>
    rw [scan_mark rfl, scan_mark rfl, ih, scan_mark rfl, ← scan_afterReturn, ih', scan_mark rfl]
  | paramsCons _ ih => rw [scan_ident, ih]
  | moreParamsCons _ ih => rw [scan_mark rfl, scan_ident, ih]
  | blockCons _ _ ih ih' | programCons _ _ ih ih' => rw [ih, ← scan_dropNewlines, ih']
  | «let» _ hend ih => rw [scan_mark rfl, scan_ident, scan_mark rfl, ih, hend.scan]
  | assign _ hend ih => rw [scan_ident, scan_mark rfl, ih, hend.scan]
  | indexAssign _ _ hend ih ih' =>
    rw [scan_ident, scan_lBracket, ih, scan_rBracket, scan_mark rfl, ih', hend.scan]
  | «return» _ hend ih => rw [scan_mark rfl, ih, hend.scan]
  | «if» _ ih => exact ih k
  | «while» _ _ hend ih ih' =>
    rw [scan_mark rfl, ih, scan_mark rfl, ← scan_dropNewlines, ih', scan_mark rfl, hend.scan]
  | «for» _ _ hend ih ih' =>
    rw [scan_mark rfl, scan_ident, scan_mark rfl, ih, scan_mark rfl, ← scan_dropNewlines, ih',
      scan_mark rfl, hend.scan]
  | fnDef _ _ hend ih ih' =>
    rw [scan_mark rfl, scan_ident, scan_mark rfl, ih, scan_mark rfl, scan_mark rfl,
      ← scan_dropNewlines, ih', scan_mark rfl, hend.scan]
  | «break» hend | «continue» hend | branchNone hend => rw [scan_mark rfl, hend.scan]
  | «import» hend =>
    rw [scan_mark rfl, scan_skip (fun m hm => by cases hm), hend.scan]
  | tryCatch _ _ hend ih ih' =>
    rw [scan_mark rfl, scan_mark rfl, ← scan_dropNewlines, ih, scan_mark rfl, scan_ident,
      scan_mark rfl, ← scan_dropNewlines, ih', scan_mark rfl, hend.scan]
  | exprStmt _ _ hend ih => rw [ih, hend.scan]
  | conditional ht _ _ _ ih ih' ih'' =>
    rw [scan_mark (by rcases ht with rfl | rfl <;> rfl), ih, scan_mark rfl, ← scan_dropNewlines,
      ih', ih'']
  | branchElif _ _ ih => exact ih k
  | branchElse _ hend ih =>
    rw [scan_mark rfl, scan_mark rfl, ← scan_dropNewlines, ih, scan_mark rfl, hend.scan]
  | argsNil | moreNil | pairsNil | partsNil | partsLiteral | partsExpr | paramsNil | moreParamsNil
  | blockNil | programNil => rfl

/-! ## Assignments -/

/-- The phrases of expressions. -/
def Phrase.isExpr : Phrase → Bool
  | .expr _ | .binary _ _ | .unary _ | .call _ | .primary _ => true
  | _ => false

theorem isExpr_operand (p : Prec) (e : Expr) : (p.operand e).isExpr = true := by cases p <;> rfl

/-- What an expression that begins with a name and one more token leaves: it ends before
that token, or it goes on with a call, an index or an operator. -/
theorem ident_then {d : Nat} {f : Bool} {φ : Phrase} {ts r : List Spanned}
    (h : Derives d f φ ts r) (hφ : φ.isExpr = true) {name : String} {l : Nat} {rest : List Spanned}
    (hts : ts = .mk (.ident name) l :: rest) :
    r = rest ∨ headMark rest = some .lParen ∨
      (headMark rest = some .lBracket ∧
        (scanIndexAssign 0 rest = false ∨ headMark r = some .assign)) ∨
      ∃ p op m, headMark rest = some m ∧ Prec.ops p m = some op := by
  induction h with
  | expr _ _ ih | unaryCall _ ih | callPrimary _ ih => exact ih rfl hts
  | operand _ ih => exact ih (isExpr_operand _ _) hts
  | @operation d f p _ op _ m l' ts mid r hop hleft hright ih _ =>
    rcases ih rfl hts with hmid | hcall | ⟨hidx, hscan⟩ | hops
    · exact .inr (.inr (.inr ⟨p, op, m, by rw [← hmid]; rfl, hop⟩))
    · exact .inr (.inl hcall)
    · refine .inr (.inr (.inl ⟨hidx, ?_⟩))
      rcases hscan with hscan | hassign
      · exact .inl hscan
      · simp only [headMark_cons, Spanned.token_mk, mark?_mark, Option.some.injEq] at hassign
        rw [hassign] at hop
        cases p <;> cases hop
    · exact .inr (.inr (.inr hops))
  | unaryOp => cases hts
  | callArgs _ _ ih _ =>
    rcases ih rfl hts with hmid | hcall | ⟨hidx, hscan⟩ | hops
    · exact .inr (.inl (by rw [← hmid]; rfl))
    · exact .inr (.inl hcall)
    · refine .inr (.inr (.inl ⟨hidx, ?_⟩))
      rcases hscan with hscan | hassign
      · exact .inl hscan
      · cases hassign
    · exact .inr (.inr (.inr hops))
  | @callIndex _ _ _ _ l₁ l₂ _ mid r _ hindex ih _ =>
    rcases ih rfl hts with hmid | hcall | ⟨hidx, hscan⟩ | hops
    · refine .inr (.inr (.inl ⟨by rw [← hmid]; rfl, ?_⟩))
      rw [← hmid, scan_lBracket, derives_scan hindex, scan_last, decide_eq_false_iff_not]
      exact (em _).symm
    · exact .inr (.inl hcall)
    · refine .inr (.inr (.inl ⟨hidx, ?_⟩))
      rcases hscan with hscan | hassign
      · exact .inl hscan
      · cases hassign
    · exact .inr (.inr (.inr hops))
  | ident => exact .inl (by cases hts; rfl)
  | int | float | str | boolTrue | boolFalse | null | print | paren | listNil | list
  | dictNil | dict | fStr | lambdaBlock | lambdaExpr => cases hts
  | _ => cases hφ

theorem LineEnd.headMark {ts r : List Spanned} (h : LineEnd ts r) :
    headMark ts = some .newline ∨ headMark ts = some .eof := by
  cases h with
  | newline => exact .inl rfl
  | eof h => exact .inr h

theorem ident_of_headToken {ts : List Spanned} {name : String} (h : headToken ts = .ident name) :
    ∃ l rest, ts = .mk (.ident name) l :: rest := by
  match ts with
  | .mk token l :: rest => exact ⟨l, rest, by rw [← h]; rfl⟩

theorem isAssignStmt_cons (t : Spanned) (rest : List Spanned) :
    isAssignStmt (t :: rest) = decide (headMark rest = some .assign) := by
  cases rest <;> rfl

theorem isIndexAssignStmt_cons (t : Spanned) (rest : List Spanned) :
    isIndexAssignStmt (t :: rest) =
      (decide (headMark rest = some .lBracket) && scanIndexAssign 0 rest) := by
  cases rest <;> rfl

/-- An expression statement does not look like an assignment. -/
theorem exprStmt_notAssign {d : Nat} {f : Bool} {e : Expr} {ts mid r : List Spanned}
    {name : String} (h : Derives d f (.expr e) ts mid) (hend : LineEnd mid r)
    (hts : headToken ts = .ident name) : isAssignStmt ts = false := by
  obtain ⟨l, rest, rfl⟩ := ident_of_headToken hts
  rw [isAssignStmt_cons, decide_eq_false_iff_not]
  intro hassign
  rcases ident_then h rfl rfl with rfl | hcall | ⟨hidx, -⟩ | ⟨p, op, m, hm, hop⟩
  · rcases hend.headMark with hmark | hmark <;> rw [hassign] at hmark <;> cases hmark
  · rw [hassign] at hcall
    cases hcall
  · rw [hassign] at hidx
    cases hidx
  · rw [hassign, Option.some.injEq] at hm
    rw [← hm] at hop
    cases p <;> cases hop

/-- An expression statement does not look like an assignment to an index. -/
theorem exprStmt_notIndexAssign {d : Nat} {f : Bool} {e : Expr} {ts mid r : List Spanned}
    {name : String} (h : Derives d f (.expr e) ts mid) (hend : LineEnd mid r)
    (hts : headToken ts = .ident name) : isIndexAssignStmt ts = false := by
  obtain ⟨l, rest, rfl⟩ := ident_of_headToken hts
  rw [isIndexAssignStmt_cons, Bool.and_eq_false_iff, decide_eq_false_iff_not]
  by_contra hboth
  have hidx : headMark rest = some .lBracket := by
    by_contra hidx
    exact hboth (.inl hidx)
  have hscan : scanIndexAssign 0 rest ≠ false := fun hscan => hboth (.inr hscan)
  rcases ident_then h rfl rfl with rfl | hcall | ⟨-, hfalse | hassign⟩ | ⟨p, op, m, hm, hop⟩
  · rcases hend.headMark with hmark | hmark <;> rw [hidx] at hmark <;> cases hmark
  · rw [hidx] at hcall
    cases hcall
  · exact hscan hfalse
  · rcases hend.headMark with hmark | hmark <;> rw [hassign] at hmark <;> cases hmark
  · rw [hidx, Option.some.injEq] at hm
    rw [← hm] at hop
    cases p <;> cases hop

end Tsumugi.Syntax
