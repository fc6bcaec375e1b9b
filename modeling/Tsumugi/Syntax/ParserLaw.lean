import Tsumugi.Lang.Value
import Tsumugi.Syntax.LexerLaw
import Tsumugi.Syntax.Parser

/-!
# The parser ends

No function of the parser runs out of fuel: each loop takes a token in every round that
goes on, and the guard on the depth is passed at most `MAX_AST_DEPTH` times on any path
of calls, through f-strings as well.

Results:
1. `level_framed`: a level with enough fuel left only drops tokens from the front and
   only adds errors;
2. `shrinking_programStep`, `shrinking_blockStep`: the loops that recover from an error
   take a token in each round;
3. `parse_answers`: the parser accepts or rejects;
4. `validateProgramDepth_parse`: what it accepts is within the limit on the depth;
5. `parsing_ends`: the same for a text, from the lexer on.
-/

namespace Tsumugi.Syntax

open Proc

/-! ## What a parse function does to the state -/

/-- Tokens go from the front, errors are added at the end, and the fuel suffices. -/
def frame : Contract State Stop where
  rel o s t := t.rest <:+ s.rest ∧ s.errors <+: t.errors ∧ o ≠ some .spent
  refl s := ⟨List.suffix_refl _, List.prefix_refl _, by simp⟩
  trans h h' := ⟨h'.1.trans h.1, h.2.1.trans h'.2.1, h'.2.2⟩

abbrev Framed {α : Type} (m : P α) : Prop := Meets frame m

/-- However it ends, a token is taken. -/
def Takes {α : Type} (m : P α) : Prop :=
  ∀ s, s.rest ≠ [] → (m.run s).2.rest.length < s.rest.length

/-- If it returns, a token is taken. -/
def Shortens {α : Type} (m : P α) : Prop :=
  ∀ s a t, s.rest ≠ [] → m.run s = (.ok a, t) → t.rest.length < s.rest.length

variable {α β γ : Type}

/-- What follows a read. -/
theorem read_run (g : State → α) (f : α → P β) (s : State) :
    (gets g >>= f).run s = (f (g s)).run s := rfl

theorem Takes.shortens {m : P α} (h : Takes m) : Shortens m := by
  intro s a t hs hrun
  have := h s hs
  rwa [hrun] at this

theorem framed_le {m : P α} (h : Framed m) (s : State) :
    (m.run s).2.rest.length ≤ s.rest.length := (h s).1.length_le

theorem framed_fail (line : Nat) (problem : Problem) : Framed (fail line problem : P α) :=
  meets_stop fun _ => ⟨List.suffix_refl _, List.prefix_refl _, by simp⟩

theorem framed_advance : Framed advance :=
  meets_modify fun _ => ⟨List.tail_suffix _, List.prefix_refl _, by simp⟩

theorem framed_advanceSpanned : Framed advanceSpanned :=
  meets_update fun _ => ⟨List.tail_suffix _, List.prefix_refl _, by simp⟩

theorem framed_pushError (e : ParseError) : Framed (pushError e) :=
  meets_modify fun _ => ⟨List.suffix_refl _, List.prefix_append _ _, by simp⟩

theorem tail_shorter {s : State} (h : s.rest ≠ []) : s.rest.tail.length < s.rest.length := by
  have := List.length_pos_iff.2 h
  simp only [List.length_tail]
  omega

theorem takes_advance {f : Unit → P β} (hf : Framed (f ())) : Takes (advance >>= f) :=
  fun s hs => Nat.lt_of_le_of_lt (framed_le hf { s with rest := s.rest.tail }) (tail_shorter hs)

theorem takes_advanceSpanned {f : Spanned → P β} (hf : ∀ a, Framed (f a)) :
    Takes (advanceSpanned >>= f) :=
  fun s hs => Nat.lt_of_le_of_lt (framed_le (hf _) { s with rest := s.rest.tail }) (tail_shorter hs)

theorem takes_read {g : State → α} {f : α → P β} (hf : ∀ a, Takes (f a)) :
    Takes (gets g >>= f) := fun s hs => hf (g s) s hs

/-- What follows a part that has taken a token. -/
theorem shorter_then {m : P α} {f : α → P β} {s : State}
    (hm : (m.run s).2.rest.length < s.rest.length) (hf : ∀ a, Framed (f a)) :
    ((m >>= f).run s).2.rest.length < s.rest.length := by
  rcases h : m.run s with ⟨e | a, t⟩ <;> rw [h] at hm
  · rwa [bind_run_error h]
  · rw [bind_run_ok h]
    exact Nat.lt_of_le_of_lt (framed_le (hf a) t) hm

theorem takes_then {m : P α} {f : α → P β} (hm : Takes m) (hf : ∀ a, Framed (f a)) :
    Takes (m >>= f) := fun s hs => shorter_then (hm s hs) hf

theorem shortens_read {g : State → α} {f : α → P β} (hf : ∀ a, Shortens (f a)) :
    Shortens (gets g >>= f) := fun s => hf (g s) s

theorem shortens_fail (line : Nat) (problem : Problem) : Shortens (fail line problem : P α) := by
  intro s a t _ hrun
  cases hrun

/-- The first part takes the token. -/
theorem shortens_then {m : P α} {f : α → P β} (hm : Shortens m) (hf : ∀ a, Framed (f a)) :
    Shortens (m >>= f) := by
  intro s b u hs hrun
  obtain ⟨a, t, hm', hf'⟩ := bind_run_eq_ok.1 hrun
  have hle := framed_le (hf a) t
  rw [hf'] at hle
  exact Nat.lt_of_le_of_lt hle (hm s a t hs hm')

theorem headToken_ne_eof {s : State} (h : headToken s.rest ≠ .mark .eof) : s.rest ≠ [] := by
  intro hnil
  simp [hnil, headToken] at h

theorem mark_ne_eof {s : State} (h : (headToken s.rest).mark? ≠ some .eof) : s.rest ≠ [] :=
  headToken_ne_eof fun heof => h (by rw [heof]; rfl)

/-! ## The loops -/

/-- The loop of a step whose rounds take a token. -/
def TakesRounds (step : β → P (β ⊕ γ)) : Prop :=
  Shrinking (fun s : State => s.rest.length) step

theorem framed_loop {step : β → P (β ⊕ γ)} (h : TakesRounds step) (hstep : ∀ b, Framed (step b))
    (b : β) : Framed (tokenLoop step b) := meets_loop h hstep b

/-- Rounds that begin at a mark. -/
theorem takesRounds_mark {step : β → P (β ⊕ γ)} {m : Mark} (hm : m ≠ .eof)
    {next : β → P (β ⊕ γ)} {last : β → γ}
    (h : ∀ b, step b = peekMark >>= fun mark =>
      if mark = some m then next b else pure (.inr (last b)))
    (hnext : ∀ b, Takes (next b)) : TakesRounds step := by
  intro b s b' t hrun
  rw [h] at hrun
  change (if (headToken s.rest).mark? = some m then next b else pure (.inr (last b))).run s = _
    at hrun
  split at hrun
  case isTrue hmark =>
    have hne : s.rest ≠ [] := mark_ne_eof (by rw [hmark]; simpa using hm)
    have := hnext b s hne
    rwa [hrun] at this
  case isFalse => cases hrun

theorem takesRounds_skip : TakesRounds skipStep :=
  takesRounds_mark (m := .newline) (by decide) (fun _ => rfl) fun _ => takes_advance (meets_pure _)

theorem framed_skipNewlines : Framed skipNewlines := by
  refine framed_loop takesRounds_skip (fun _ => ?_) ()
  exact meets_bind (meets_gets _) fun _ =>
    meets_ite (meets_bind framed_advance fun _ => meets_pure _) (meets_pure _)

/-! ## Small functions -/

theorem framed_expect (mark : Mark) : Framed (expect mark) :=
  meets_bind framed_advanceSpanned fun _ =>
    meets_ite (meets_pure _) (meets_ite (framed_fail _ _) (framed_fail _ _))

theorem framed_expectNewline : Framed expectNewline := by
  refine meets_bind (meets_gets _) fun line => meets_bind (meets_gets _) fun tok => ?_
  split
  · exact framed_advance
  · exact meets_pure _
  · exact framed_fail _ _

theorem framed_expectNewlineOrEof : Framed expectNewlineOrEof := by
  refine meets_bind (meets_gets _) fun line => meets_bind (meets_gets _) fun tok => ?_
  split
  · exact framed_advance
  · exact meets_pure _
  · exact framed_fail _ _

theorem framed_expectName (place : NamePlace) : Framed (expectName place) := by
  refine meets_bind framed_advanceSpanned fun spanned => ?_
  split
  · exact meets_pure _
  · exact framed_fail _ _

theorem framed_takeName : Framed takeName := by
  refine meets_bind framed_advanceSpanned fun spanned => ?_
  split <;> exact meets_pure _

theorem framed_checkExprDepth (e : Expr) (line : Nat) : Framed (checkExprDepth e line) :=
  meets_ite (framed_fail _ _) (meets_pure _)

theorem framed_checkStmtDepth (s : Stmt) : Framed (checkStmtDepth s) :=
  meets_ite (framed_fail _ _) (meets_pure _)

/-! ## Recovery -/

theorem takesRounds_sync : TakesRounds syncStep := by
  intro b s b' t hrun
  have hne : s.rest ≠ [] := by
    refine mark_ne_eof fun heof => ?_
    simp only [syncStep, peekMark, bind_run, gets_run, heof, pure_run] at hrun
    cases hrun
  simp only [syncStep, peekMark, bind_run, gets_run] at hrun
  split at hrun
  · cases hrun
  · cases hrun
  · split at hrun
    · cases hrun
    · cases hrun
      exact tail_shorter hne
  · cases hrun
    exact tail_shorter hne

theorem framed_synchronize : Framed synchronize := by
  refine framed_loop takesRounds_sync (fun _ => ?_) ()
  refine meets_bind (meets_gets _) fun mark => ?_
  split
  · exact meets_pure _
  · exact meets_bind framed_advance fun _ => meets_pure _
  · exact meets_ite (meets_pure _) (meets_bind framed_advance fun _ => meets_pure _)
  · exact meets_bind framed_advance fun _ => meets_pure _

/-- Away from the places where it stops, a round takes a token. -/
theorem syncStep_takes {s : State} (heof : (headToken s.rest).mark? ≠ some .eof)
    (hkeyword : ∀ m, (headToken s.rest).mark? = some m → m.beginsStmt = false) :
    ∃ r, (syncStep ()).run s = (.ok r, { s with rest := s.rest.tail }) := by
  simp only [syncStep, peekMark, bind_run, gets_run]
  split
  case h_1 h => exact absurd h heof
  case h_2 => exact ⟨_, rfl⟩
  case h_3 m _ _ h =>
    rw [hkeyword m h]
    exact ⟨_, rfl⟩
  case h_4 => exact ⟨_, rfl⟩

/-- Away from the places where it stops, `synchronize` takes a token. -/
theorem synchronize_takes {s : State} (heof : (headToken s.rest).mark? ≠ some .eof)
    (hkeyword : ∀ m, (headToken s.rest).mark? = some m → m.beginsStmt = false) :
    (synchronize.run s).2.rest.length < s.rest.length := by
  have htail := tail_shorter (mark_ne_eof heof)
  have hafter := framed_le framed_synchronize { s with rest := s.rest.tail }
  obtain ⟨r, hstep⟩ := syncStep_takes heof hkeyword
  rw [synchronize, tokenLoop, loop_run takesRounds_sync, bind_run_ok hstep]
  cases r with
  | inl _ => exact Nat.lt_of_le_of_lt hafter htail
  | inr _ => exact htail

theorem takesRounds_discard : TakesRounds discardStep := by
  intro b s b' t hrun
  change (if (headToken s.rest).mark? = some Mark.newline ∨ (headToken s.rest).mark? = some Mark.eof
    then pure (.inr ()) else advance >>= fun _ => pure (.inl ()) : P (Unit ⊕ Unit)).run s = _ at hrun
  split at hrun
  case isTrue => cases hrun
  case isFalse hmark =>
    have hless := tail_shorter (mark_ne_eof fun heof => hmark (.inr heof))
    cases hrun
    exact hless

theorem framed_discardStep : Framed (discardStep ()) :=
  meets_bind (meets_gets _) fun _ =>
    meets_ite (meets_pure _) (meets_bind framed_advance fun _ => meets_pure _)

theorem framed_afterDiscard :
    Framed (peekMark >>= fun mark => if mark = some .newline then advance else pure ()) :=
  meets_bind (meets_gets _) fun _ => meets_ite framed_advance (meets_pure _)

theorem framed_discardCurrentLine : Framed discardCurrentLine :=
  meets_bind (framed_loop takesRounds_discard (fun _ => framed_discardStep) ()) fun _ =>
    framed_afterDiscard

/-- Away from the end of a line `discard_current_line` takes a token. -/
theorem discardCurrentLine_takes {s : State} (heof : (headToken s.rest).mark? ≠ some .eof)
    (hnl : (headToken s.rest).mark? ≠ some .newline) :
    (discardCurrentLine.run s).2.rest.length < s.rest.length := by
  have htail := tail_shorter (mark_ne_eof heof)
  have hafter := framed_le framed_discardCurrentLine { s with rest := s.rest.tail }
  have hstep : (discardStep ()).run s = (.ok (.inl ()), { s with rest := s.rest.tail }) := by
    simp only [discardStep, peekMark, bind_run, gets_run, heof, hnl, or_self, if_false]
    rfl
  have hrun : discardCurrentLine.run s = discardCurrentLine.run { s with rest := s.rest.tail } := by
    change (tokenLoop discardStep () >>= fun _ => _).run s
      = (tokenLoop discardStep () >>= fun _ => _).run { s with rest := s.rest.tail }
    rw [bind_run, bind_run]
    rw [show (tokenLoop discardStep ()).run s
      = (tokenLoop discardStep ()).run { s with rest := s.rest.tail } from by
        rw [tokenLoop, loop_run takesRounds_discard, bind_run_ok hstep]]
  rw [hrun]
  exact Nat.lt_of_le_of_lt hafter htail

theorem framed_rejectNonTopLevelImport : Framed rejectNonTopLevelImport :=
  meets_bind (meets_gets _) fun _ => meets_bind framed_discardCurrentLine fun _ => meets_pure _

theorem framed_rejectNonFunctionReturn : Framed rejectNonFunctionReturn :=
  meets_bind (meets_gets _) fun _ => meets_bind framed_discardCurrentLine fun _ => meets_pure _

theorem rejectNonTopLevelImport_takes {s : State}
    (h : (headToken s.rest).mark? = some .«import») :
    (rejectNonTopLevelImport.run s).2.rest.length < s.rest.length :=
  shorter_then (m := discardCurrentLine)
    (discardCurrentLine_takes (by rw [h]; decide) (by rw [h]; decide)) fun _ => meets_pure _

theorem rejectNonFunctionReturn_takes {s : State}
    (h : (headToken s.rest).mark? = some .«return») :
    (rejectNonFunctionReturn.run s).2.rest.length < s.rest.length :=
  shorter_then (m := discardCurrentLine)
    (discardCurrentLine_takes (by rw [h]; decide) (by rw [h]; decide)) fun _ => meets_pure _

/-! ## Functions that take a token -/

/-- An expression or a statement: it takes a token if it returns. -/
structure Reads (m : P α) : Prop where
  framed : Framed m
  shortens : Shortens m

/-- A function whose callers have seen its first token: it takes that one at least. -/
structure Opens (m : P α) : Prop where
  framed : Framed m
  takes : Takes m

theorem Opens.reads {m : P α} (h : Opens m) : Reads m := ⟨h.framed, h.takes.shortens⟩

theorem reads_fail (line : Nat) (problem : Problem) : Reads (fail line problem : P α) :=
  ⟨framed_fail _ _, shortens_fail _ _⟩

theorem reads_then {m : P α} {f : α → P β} (hm : Reads m) (hf : ∀ a, Framed (f a)) :
    Reads (m >>= f) :=
  ⟨meets_bind hm.framed hf, shortens_then hm.shortens hf⟩

theorem reads_read {g : State → α} {f : α → P β} (hf : ∀ a, Reads (f a)) : Reads (gets g >>= f) :=
  ⟨meets_bind (meets_gets g) fun a => (hf a).framed, shortens_read fun a => (hf a).shortens⟩

theorem opens_advance {f : Unit → P β} (hf : Framed (f ())) : Opens (advance >>= f) :=
  ⟨meets_bind framed_advance fun _ => hf, takes_advance hf⟩

theorem opens_advanceSpanned {f : Spanned → P β} (hf : ∀ a, Framed (f a)) :
    Opens (advanceSpanned >>= f) :=
  ⟨meets_bind framed_advanceSpanned hf, takes_advanceSpanned hf⟩

theorem opens_read {g : State → α} {f : α → P β} (hf : ∀ a, Opens (f a)) : Opens (gets g >>= f) :=
  ⟨meets_bind (meets_gets g) fun a => (hf a).framed, takes_read fun a => (hf a).takes⟩

theorem opens_then {m : P α} {f : α → P β} (hm : Opens m) (hf : ∀ a, Framed (f a)) :
    Opens (m >>= f) :=
  ⟨meets_bind hm.framed hf, takes_then hm.takes hf⟩

theorem opens_takeName : Opens takeName :=
  opens_advanceSpanned fun spanned => by split <;> exact meets_pure _

/-- The functions of a level that run at a depth. -/
structure Level.Runs (sub : Level) (depth : Nat) : Prop where
  parseOr : ∀ ctx, ctx.depth = depth → Reads (sub.parseOr ctx)
  parseUnary : ∀ ctx, ctx.depth = depth → Reads (sub.parseUnary ctx)
  parseStmtInner : ∀ isTopLevel ctx, ctx.depth = depth → Reads (sub.parseStmtInner isTopLevel ctx)
  parseIf : ∀ ctx, ctx.depth = depth → Framed (sub.parseIf ctx)
  /-- A statement that begins with a keyword takes it, also if it is wrong. -/
  keyword : ∀ isTopLevel ctx s m, ctx.depth = depth → (headToken s.rest).mark? = some m →
    m.beginsStmt = true → ((sub.parseStmtInner isTopLevel ctx).run s).2.rest.length < s.rest.length

theorem reads_withParseDepth {ctx : Ctx} {expression : Bool} {parse : Ctx → P α}
    (h : ctx.depth < maxAstDepth → Reads (parse { ctx with depth := ctx.depth + 1 })) :
    Reads (withParseDepth ctx expression parse) := by
  unfold withParseDepth
  split
  · exact reads_read fun _ => reads_fail _ _
  · exact h (by omega)

theorem framed_withParseDepth {ctx : Ctx} {expression : Bool} {parse : Ctx → P α}
    (h : ctx.depth < maxAstDepth → Framed (parse { ctx with depth := ctx.depth + 1 })) :
    Framed (withParseDepth ctx expression parse) := by
  unfold withParseDepth
  split
  · exact meets_bind (meets_gets _) fun _ => framed_fail _ _
  · exact h (by omega)

/-! ## Expressions -/

theorem takesRounds_moreParams : TakesRounds moreParams :=
  takesRounds_mark (m := .comma) (by decide) (fun _ => rfl) fun _ =>
    takes_advance (meets_bind (framed_expectName _) fun _ => meets_pure _)

theorem framed_parseParams : Framed parseParams := by
  refine meets_bind (meets_gets _) fun _ => meets_ite (meets_pure _) ?_
  refine meets_bind (framed_expectName _) fun _ => framed_loop takesRounds_moreParams (fun _ => ?_) _
  exact meets_bind (meets_gets _) fun _ => meets_ite
    (meets_bind framed_advance fun _ => meets_bind (framed_expectName _) fun _ => meets_pure _)
    (meets_pure _)

section

variable {sub : Level} {ctx : Ctx} (h : ctx.depth < maxAstDepth → sub.Runs (ctx.depth + 1))
include h

theorem reads_parseExpr : Reads (parseExpr sub ctx) :=
  reads_read fun _ => reads_then (reads_withParseDepth fun hd => (h hd).parseOr _ rfl) fun _ =>
    framed_checkExprDepth _ _

theorem takesRounds_moreArgs : TakesRounds (moreArgs sub ctx) :=
  takesRounds_mark (m := .comma) (by decide) (fun _ => rfl) fun _ =>
    takes_advance (meets_bind (reads_parseExpr h).framed fun _ => meets_pure _)

theorem framed_parseArgs : Framed (parseArgs sub ctx) := by
  refine meets_bind (meets_gets _) fun _ => meets_ite (meets_pure _) ?_
  refine meets_bind (reads_parseExpr h).framed fun _ =>
    framed_loop (takesRounds_moreArgs h) (fun _ => ?_) _
  exact meets_bind (meets_gets _) fun _ => meets_ite
    (meets_bind framed_advance fun _ => meets_bind (reads_parseExpr h).framed fun _ => meets_pure _)
    (meets_pure _)

theorem framed_nextItem (items : List Expr) :
    Framed (peekMark >>= fun mark =>
      if mark = some .rBracket then pure (.inr items)
      else parseExpr sub ctx >>= fun e => pure (.inl (items ++ [e])) : P (List Expr ⊕ List Expr)) :=
  meets_bind (meets_gets _) fun _ => meets_ite (meets_pure _)
    (meets_bind (reads_parseExpr h).framed fun _ => meets_pure _)

theorem takesRounds_moreItems : TakesRounds (moreItems sub ctx) :=
  takesRounds_mark (m := .comma) (by decide) (fun _ => rfl) fun items =>
    takes_advance (framed_nextItem h items)

theorem opens_parseListLiteral : Opens (parseListLiteral sub ctx) := by
  refine opens_advance (meets_bind (meets_gets _) fun _ => meets_ite ?_ ?_)
  · exact meets_bind framed_advance fun _ => meets_pure _
  · refine meets_bind (reads_parseExpr h).framed fun _ =>
      meets_bind (framed_loop (takesRounds_moreItems h) (fun items => ?_) _) fun _ =>
        meets_bind (framed_expect _) fun _ => meets_bind (meets_gets _) fun _ =>
          framed_checkExprDepth _ _
    exact meets_bind (meets_gets _) fun _ => meets_ite
      (meets_bind framed_advance fun _ => framed_nextItem h items) (meets_pure _)

theorem framed_parsePair : Framed (parsePair sub ctx) :=
  meets_bind (reads_parseExpr h).framed fun _ => meets_bind (framed_expect _) fun _ =>
    meets_bind (reads_parseExpr h).framed fun _ => meets_pure _

theorem framed_nextPair (pairs : List (Expr × Expr)) :
    Framed (peekMark >>= fun mark =>
      if mark = some .rBrace then pure (.inr pairs)
      else parsePair sub ctx >>= fun pair => pure (.inl (pairs ++ [pair])) :
        P (List (Expr × Expr) ⊕ List (Expr × Expr))) :=
  meets_bind (meets_gets _) fun _ => meets_ite (meets_pure _)
    (meets_bind (framed_parsePair h) fun _ => meets_pure _)

theorem takesRounds_morePairs : TakesRounds (morePairs sub ctx) :=
  takesRounds_mark (m := .comma) (by decide) (fun _ => rfl) fun pairs =>
    takes_advance (framed_nextPair h pairs)

theorem opens_parseDictLiteral : Opens (parseDictLiteral sub ctx) := by
  refine opens_advance (meets_bind (meets_gets _) fun _ => meets_ite ?_ ?_)
  · exact meets_bind framed_advance fun _ => meets_pure _
  · refine meets_bind (framed_parsePair h) fun _ =>
      meets_bind (framed_loop (takesRounds_morePairs h) (fun pairs => ?_) _) fun _ =>
        meets_bind (framed_expect _) fun _ => meets_bind (meets_gets _) fun _ =>
          framed_checkExprDepth _ _
    exact meets_bind (meets_gets _) fun _ => meets_ite
      (meets_bind framed_advance fun _ => framed_nextPair h pairs) (meets_pure _)

omit h in
/-- The parser of a part leaves the tokens and the errors of the one around it alone. -/
theorem framed_inFString {m : P α} (hm : Framed m) (line : Nat) (tokens : List Spanned) :
    Framed (inFString line tokens m) := by
  intro s
  have hrun := (hm ⟨closePart line tokens, []⟩).2.2
  simp only [inFString]
  split
  case h_1 => split <;> exact ⟨List.suffix_refl _, List.prefix_refl _, by simp [stopOf]⟩
  case h_2 => exact ⟨List.suffix_refl _, List.prefix_refl _, by simp [stopOf]⟩
  case h_3 heq => exact absurd (by rw [heq]; rfl) hrun

omit h in
theorem framed_parseParts (hpart : Framed (parseExpr sub { ctx with fnDepth := 0 })) (line : Nat) :
    ∀ parts, Framed (parseParts sub ctx line parts)
  | [] => meets_pure _
  | .literal _ :: parts =>
    meets_bind (framed_parseParts hpart line parts) fun _ => meets_pure _
  | .expr _ :: parts =>
    meets_bind (framed_inFString hpart _ _) fun _ =>
      meets_bind (framed_parseParts hpart line parts) fun _ => meets_pure _

theorem framed_parseFstr (parts : List FStrPart) (line : Nat) :
    Framed (parseFstr sub ctx parts line) := by
  refine meets_bind (framed_parseParts ?_ line parts) fun _ => framed_checkExprDepth _ _
  exact (@reads_parseExpr sub { ctx with fnDepth := 0 } h).framed

/-! ## Blocks and lambdas -/

theorem reads_parseStmt (isTopLevel : Bool) : Reads (parseStmt sub ctx isTopLevel) :=
  reads_then (reads_withParseDepth fun hd => (h hd).parseStmtInner _ _ rfl) fun _ =>
    framed_checkStmtDepth _

omit h in
/-- What a block does after a line that it drops with an error. -/
theorem framed_dropped (e : ParseError) (stmts : Block) :
    Framed (pushError e >>= fun _ => skipNewlines >>= fun _ =>
      pure (.inl stmts) : P (Block ⊕ Block)) :=
  meets_bind (framed_pushError _) fun _ => meets_bind framed_skipNewlines fun _ => meets_pure _

theorem framed_blockStep (terminators : List Mark) (stmts : Block) :
    Framed (blockStep sub ctx terminators stmts) := by
  refine meets_bind (meets_gets _) fun mark => meets_ite (meets_pure _) ?_
  refine meets_ite ?_ (meets_ite ?_ ?_)
  · exact meets_bind framed_rejectNonTopLevelImport fun e => framed_dropped e stmts
  · exact meets_bind framed_rejectNonFunctionReturn fun e => framed_dropped e stmts
  · exact meets_bind (reads_parseStmt h false).framed fun _ =>
      meets_bind framed_skipNewlines fun _ => meets_pure _

/-- Each round of a block takes a token, also one that drops a line with an error. -/
theorem takesRounds_blockStep (terminators : List Mark) :
    TakesRounds (blockStep sub ctx terminators) := by
  intro stmts s b t hrun
  rw [blockStep, peekMark, bind_run, gets_run] at hrun
  dsimp only at hrun
  by_cases hend : (headToken s.rest).mark? = some .eof ∨
      ∃ m ∈ terminators, (headToken s.rest).mark? = some m
  · rw [if_pos hend] at hrun
    cases hrun
  rw [if_neg hend] at hrun
  have heof : (headToken s.rest).mark? ≠ some .eof := fun he => hend (.inl he)
  by_cases himport : (headToken s.rest).mark? = some .«import»
  · rw [if_pos himport] at hrun
    have hless := shorter_then (rejectNonTopLevelImport_takes himport) (framed_dropped · stmts)
    rwa [hrun] at hless
  rw [if_neg himport] at hrun
  by_cases hreturn : ctx.fnDepth = 0 ∧ (headToken s.rest).mark? = some .«return»
  · rw [if_pos hreturn] at hrun
    have hless := shorter_then (rejectNonFunctionReturn_takes hreturn.2) (framed_dropped · stmts)
    rwa [hrun] at hless
  rw [if_neg hreturn] at hrun
  exact shortens_then (reads_parseStmt h false).shortens
    (fun _ => meets_bind framed_skipNewlines fun _ => meets_pure _) s _ t (mark_ne_eof heof) hrun

theorem framed_parseBlock (terminators : List Mark) : Framed (parseBlock sub ctx terminators) :=
  framed_loop (takesRounds_blockStep h terminators) (framed_blockStep h terminators) []

theorem framed_functionBody :
    Framed (withFnContext ctx fun ctx => parseBlock sub ctx [.«end»]) :=
  @framed_parseBlock sub { ctx with fnDepth := ctx.fnDepth + 1 } h _

theorem opens_parseAnonymousFn : Opens (parseAnonymousFn sub ctx) := by
  refine opens_read fun line => opens_advance ?_
  refine meets_bind (framed_expect _) fun _ => meets_bind framed_parseParams fun params =>
    meets_bind (framed_expect _) fun _ => meets_bind (meets_gets _) fun _ => meets_ite ?_ ?_
  · exact meets_bind framed_advance fun _ => meets_bind (framed_functionBody h) fun _ =>
      meets_bind (framed_expect _) fun _ => framed_checkExprDepth _ _
  · refine meets_bind (meets_gets _) fun bodyLine => meets_bind (meets_gets _) fun _ => ?_
    have hbody : Framed (parseExpr sub ctx >>= fun e => expect .«end» >>= fun _ =>
        checkExprDepth (.lambda params [.«return» e bodyLine]) line) :=
      meets_bind (reads_parseExpr h).framed fun _ => meets_bind (framed_expect _) fun _ =>
        framed_checkExprDepth _ _
    exact meets_ite (meets_bind framed_advance fun _ => hbody) hbody

/-! ## Primaries, calls and operators -/

theorem reads_parsePrimary : Reads (parsePrimary sub ctx) := by
  have hlit : ∀ e : Expr, Opens (advance >>= fun _ => pure e) := fun e => opens_advance (meets_pure e)
  refine reads_read fun line => reads_read fun tok => ?_
  split
  · exact (hlit _).reads
  · exact (hlit _).reads
  · exact (hlit _).reads
  · exact (opens_advance (framed_parseFstr h _ _)).reads
  · exact (hlit _).reads
  · exact (hlit _).reads
  · exact (hlit _).reads
  · exact (hlit _).reads
  · exact (opens_advance (meets_bind (framed_expect _) fun _ => meets_bind (framed_parseArgs h)
      fun _ => meets_bind (framed_expect _) fun _ => framed_checkExprDepth _ _)).reads
  · exact (opens_advance (meets_bind (reads_parseExpr h).framed fun _ =>
      meets_bind (framed_expect _) fun _ => meets_pure _)).reads
  · exact (opens_parseListLiteral h).reads
  · exact (opens_parseDictLiteral h).reads
  · exact (opens_parseAnonymousFn h).reads
  · exact (opens_advance (framed_fail _ _)).reads
  · exact (opens_advance (framed_fail _ _)).reads
  · exact reads_fail _ _

/-- The call of an expression. -/
theorem opens_callRound (e : Expr) (line : Nat) :
    Opens (advance >>= fun _ => parseArgs sub ctx >>= fun args => expect .rParen >>= fun _ =>
      checkExprDepth (.call e args) line >>= fun e => pure (.inl e) : P (Expr ⊕ Expr)) :=
  opens_advance (meets_bind (framed_parseArgs h) fun _ => meets_bind (framed_expect _) fun _ =>
    meets_bind (framed_checkExprDepth _ _) fun _ => meets_pure _)

/-- The index of an expression. -/
theorem opens_indexRound (e : Expr) (line : Nat) :
    Opens (advance >>= fun _ => parseExpr sub ctx >>= fun idx => expect .rBracket >>= fun _ =>
      checkExprDepth (.index e idx) line >>= fun e => pure (.inl e) : P (Expr ⊕ Expr)) :=
  opens_advance (meets_bind (reads_parseExpr h).framed fun _ => meets_bind (framed_expect _) fun _ =>
    meets_bind (framed_checkExprDepth _ _) fun _ => meets_pure _)

theorem framed_callStep (e : Expr) : Framed (callStep sub ctx e) := by
  refine meets_bind (meets_gets _) fun line => meets_bind (meets_gets _) fun mark => ?_
  split
  · exact (opens_callRound h e line).framed
  · exact (opens_indexRound h e line).framed
  · exact meets_pure _

theorem takesRounds_callStep : TakesRounds (callStep sub ctx) := by
  intro e s e' t hrun
  rw [callStep, currentLine, read_run, peekMark, read_run] at hrun
  split at hrun
  · next hmark =>
    have hne : s.rest ≠ [] := mark_ne_eof (by rw [hmark]; decide)
    exact (opens_callRound h e _).takes.shortens s _ t hne hrun
  · next hmark =>
    have hne : s.rest ≠ [] := mark_ne_eof (by rw [hmark]; decide)
    exact (opens_indexRound h e _).takes.shortens s _ t hne hrun
  · cases hrun

theorem reads_parseCall : Reads (parseCall sub ctx) :=
  reads_then (reads_parsePrimary h) fun e =>
    framed_loop (takesRounds_callStep h) (framed_callStep h) e

theorem opens_unaryOperation (op : UnaryOpKind) : Opens (unaryOperation sub ctx op) :=
  opens_read fun _ => opens_advance <|
    meets_bind (reads_withParseDepth fun hd => (h hd).parseUnary _ rfl).framed fun _ =>
      framed_checkExprDepth _ _

theorem reads_parseUnary : Reads (parseUnary sub ctx) := by
  refine reads_read fun mark => ?_
  split
  · exact (opens_unaryOperation h _).reads
  · exact (opens_unaryOperation h _).reads
  · exact reads_parseCall h

omit h in
/-- The operators of a level of precedence are marks. -/
theorem takesRounds_operandStep {ops : Mark → Option BinOpKind} (hops : ops .eof = none)
    {operand : P Expr} (hoperand : Framed operand) : TakesRounds (operandStep ops operand) := by
  intro left s e t hrun
  rw [operandStep, peekMark, read_run] at hrun
  split at hrun
  · next op hop =>
    have hne : s.rest ≠ [] := by
      refine mark_ne_eof fun heof => ?_
      rw [heof, Option.bind_some, hops] at hop
      cases hop
    have hround : Framed (operand >>= fun right => currentLine >>= fun line =>
        checkExprDepth (.binOp left op right) line >>= fun e => pure (.inl e) : P (Expr ⊕ Expr)) :=
      meets_bind hoperand fun _ => meets_bind (meets_gets _) fun _ =>
        meets_bind (framed_checkExprDepth _ _) fun _ => meets_pure _
    exact (takes_advance hround).shortens s _ t hne hrun
  · cases hrun

omit h in
theorem reads_leftAssoc {ops : Mark → Option BinOpKind} (hops : ops .eof = none)
    {operand : P Expr} (hoperand : Reads operand) : Reads (leftAssoc ops operand) := by
  refine reads_then hoperand fun left =>
    framed_loop (takesRounds_operandStep hops hoperand.framed) (fun left => ?_) left
  refine meets_bind (meets_gets _) fun mark => ?_
  split
  · exact meets_bind framed_advance fun _ => meets_bind hoperand.framed fun _ =>
      meets_bind (meets_gets _) fun _ => meets_bind (framed_checkExprDepth _ _) fun _ =>
        meets_pure _
  · exact meets_pure _

theorem reads_parseOr : Reads (parseOr sub ctx) :=
  reads_leftAssoc rfl <| reads_leftAssoc rfl <| reads_leftAssoc rfl <| reads_leftAssoc rfl <|
    reads_leftAssoc rfl <| reads_parseUnary h

/-! ## Statements -/

omit h in
/-- The header of a block and what follows it. -/
theorem framed_header {f : Unit → P β} (hf : Framed (f ())) :
    Framed (expectNewline >>= fun _ => skipNewlines >>= f) :=
  meets_bind framed_expectNewline fun _ => meets_bind framed_skipNewlines fun _ => hf

omit h in
/-- The end of a block and of its statement. -/
theorem framed_footer (a : α) :
    Framed (expect .«end» >>= fun _ => expectNewlineOrEof >>= fun _ => pure a) :=
  meets_bind (framed_expect _) fun _ => meets_bind framed_expectNewlineOrEof fun _ => meets_pure _

theorem opens_parseLet : Opens (parseLet sub ctx) :=
  opens_read fun _ => opens_advance <| meets_bind (framed_expectName _) fun _ =>
    meets_bind (framed_expect _) fun _ => meets_bind (reads_parseExpr h).framed fun _ =>
      meets_bind framed_expectNewlineOrEof fun _ => meets_pure _

theorem opens_parseReturn : Opens (parseReturn sub ctx) :=
  opens_read fun _ => opens_advance <| meets_bind (reads_parseExpr h).framed fun _ =>
    meets_bind framed_expectNewlineOrEof fun _ => meets_pure _

theorem framed_parseBranches : Framed (parseBranches sub ctx) := by
  refine meets_bind (meets_gets _) fun mark => ?_
  split
  · exact meets_bind (framed_withParseDepth fun hd => (h hd).parseIf _ rfl) fun _ => meets_pure _
  · exact meets_bind framed_advance fun _ => framed_header <|
      meets_bind (framed_parseBlock h _) fun _ => framed_footer _
  · exact framed_footer _

theorem opens_parseIf : Opens (parseIf sub ctx) :=
  opens_read fun _ => opens_advance <| meets_bind (reads_parseExpr h).framed fun _ =>
    framed_header <| meets_bind (framed_parseBlock h _) fun _ =>
      meets_bind (framed_parseBranches h) fun _ => meets_pure _

theorem opens_parseWhile : Opens (parseWhile sub ctx) :=
  opens_read fun _ => opens_advance <| meets_bind (reads_parseExpr h).framed fun _ =>
    framed_header <| meets_bind (framed_parseBlock h _) fun _ => framed_footer _

theorem opens_parseFor : Opens (parseFor sub ctx) :=
  opens_read fun _ => opens_advance <| meets_bind (framed_expectName _) fun _ =>
    meets_bind (framed_expect _) fun _ => meets_bind (reads_parseExpr h).framed fun _ =>
      framed_header <| meets_bind (framed_parseBlock h _) fun _ => framed_footer _

theorem opens_parseTryCatch : Opens (parseTryCatch sub ctx) :=
  opens_read fun _ => opens_advance <| framed_header <| meets_bind (framed_parseBlock h _) fun _ =>
    meets_bind (framed_expect _) fun _ => meets_bind (framed_expectName _) fun _ =>
      framed_header <| meets_bind (framed_parseBlock h _) fun _ => framed_footer _

theorem opens_parseFnDef : Opens (parseFnDef sub ctx) :=
  opens_read fun _ => opens_advance <| meets_bind (framed_expectName _) fun _ =>
    meets_bind (framed_expect _) fun _ => meets_bind framed_parseParams fun _ =>
      meets_bind (framed_expect _) fun _ => framed_header <|
        meets_bind (framed_functionBody h) fun _ => framed_footer _

omit h in
theorem opens_parseBreak : Opens parseBreak :=
  opens_read fun _ => opens_advance <| meets_bind framed_expectNewlineOrEof fun _ => meets_pure _

omit h in
theorem opens_parseContinue : Opens parseContinue :=
  opens_read fun _ => opens_advance <| meets_bind framed_expectNewlineOrEof fun _ => meets_pure _

omit h in
theorem opens_parseImport : Opens parseImport := by
  refine opens_read fun line => opens_advance <| meets_bind framed_advanceSpanned fun spanned => ?_
  split
  · exact meets_bind framed_expectNewlineOrEof fun _ => meets_pure _
  · exact framed_fail _ _

theorem opens_parseAssign : Opens (parseAssign sub ctx) :=
  opens_read fun _ => opens_then opens_takeName fun _ => meets_bind framed_advance fun _ =>
    meets_bind (reads_parseExpr h).framed fun _ =>
      meets_bind framed_expectNewlineOrEof fun _ => meets_pure _

theorem opens_parseIndexAssign : Opens (parseIndexAssign sub ctx) :=
  opens_read fun _ => opens_then opens_takeName fun _ => meets_bind (framed_expect _) fun _ =>
    meets_bind (reads_parseExpr h).framed fun _ => meets_bind (framed_expect _) fun _ =>
      meets_bind (framed_expect _) fun _ => meets_bind (reads_parseExpr h).framed fun _ =>
        meets_bind framed_expectNewlineOrEof fun _ => meets_pure _

theorem reads_parseExprStmt : Reads (parseExprStmt sub ctx) :=
  reads_read fun _ => reads_then (reads_parseExpr h) fun _ =>
    meets_bind framed_expectNewlineOrEof fun _ => meets_pure _

omit h in
theorem framed_failWith {reject : P ParseError} (hreject : Framed reject) :
    Framed (failWith reject : P α) :=
  meets_bind hreject fun _ =>
    meets_stop fun _ => ⟨List.suffix_refl _, List.prefix_refl _, by simp⟩

omit h in
theorem shortens_failWith (reject : P ParseError) : Shortens (failWith reject : P α) := by
  intro s a t _ hrun
  obtain ⟨e, u, -, hstop⟩ := bind_run_eq_ok.1 hrun
  cases hstop

omit h in
theorem shorter_failWith {reject : P ParseError} {s : State}
    (hreject : (reject.run s).2.rest.length < s.rest.length) :
    ((failWith reject : P α).run s).2.rest.length < s.rest.length :=
  shorter_then hreject fun _ =>
    meets_stop fun _ => ⟨List.suffix_refl _, List.prefix_refl _, by simp⟩

theorem reads_parseStmtInner (isTopLevel : Bool) : Reads (parseStmtInner sub ctx isTopLevel) := by
  refine reads_read fun tok => ?_
  split
  · exact (opens_parseLet h).reads
  · split
    · exact (opens_parseReturn h).reads
    · exact ⟨framed_failWith framed_rejectNonFunctionReturn, shortens_failWith _⟩
  · exact (opens_parseIf h).reads
  · exact (opens_parseWhile h).reads
  · exact (opens_parseFor h).reads
  · exact (opens_parseFnDef h).reads
  · exact opens_parseBreak.reads
  · exact opens_parseContinue.reads
  · split
    · exact opens_parseImport.reads
    · exact ⟨framed_failWith framed_rejectNonTopLevelImport, shortens_failWith _⟩
  · exact (opens_parseTryCatch h).reads
  · refine reads_read fun rest => ?_
    split
    · exact (opens_parseAssign h).reads
    · split
      · exact (opens_parseIndexAssign h).reads
      · exact reads_parseExprStmt h
  · exact reads_parseExprStmt h

/-- The keyword of a statement is taken, whatever follows it. -/
theorem parseStmtInner_keyword (isTopLevel : Bool) {s : State} {m : Mark}
    (hmark : (headToken s.rest).mark? = some m) (hm : m.beginsStmt = true) :
    ((parseStmtInner sub ctx isTopLevel).run s).2.rest.length < s.rest.length := by
  have htok : headToken s.rest = .mark m := Token.mark?_eq_some.1 hmark
  have hne : s.rest ≠ [] := mark_ne_eof fun heof => by
    rw [hmark, Option.some.injEq] at heof
    rw [heof] at hm
    cases hm
  rw [parseStmtInner, peekToken, read_run, htok]
  cases m <;> cases hm
  case «let» => exact (opens_parseLet h).takes s hne
  case fn => exact (opens_parseFnDef h).takes s hne
  case «return» =>
    dsimp only
    split
    · exact (opens_parseReturn h).takes s hne
    · exact shorter_failWith (rejectNonFunctionReturn_takes hmark)
  case «if» => exact (opens_parseIf h).takes s hne
  case «while» => exact (opens_parseWhile h).takes s hne
  case «for» => exact (opens_parseFor h).takes s hne
  case «break» => exact opens_parseBreak.takes s hne
  case «continue» => exact opens_parseContinue.takes s hne
  case «import» =>
    dsimp only
    split
    · exact opens_parseImport.takes s hne
    · exact shorter_failWith (rejectNonTopLevelImport_takes hmark)
  case «try» => exact (opens_parseTryCatch h).takes s hne

end

/-! ## Levels -/

theorem nextLevel_runs {sub : Level} {depth : Nat}
    (h : depth < maxAstDepth → sub.Runs (depth + 1)) : (nextLevel sub).Runs depth where
  parseOr _ hctx := reads_parseOr (hctx ▸ h)
  parseUnary _ hctx := reads_parseUnary (hctx ▸ h)
  parseStmtInner isTopLevel _ hctx := reads_parseStmtInner (hctx ▸ h) isTopLevel
  parseIf _ hctx := (opens_parseIf (hctx ▸ h)).framed
  keyword isTopLevel _ _ _ hctx := parseStmtInner_keyword (hctx ▸ h) isTopLevel

/-- A level that can go through the guard often enough: the induction is on how often. -/
theorem level_runs : ∀ {n depth : Nat}, depth ≤ maxAstDepth → maxAstDepth < depth + n →
    (level n).Runs depth := by
  intro n
  induction n with
  | zero => intro depth hle hlt; omega
  | succ n ih =>
    intro depth _ hlt
    exact nextLevel_runs fun hdepth => ih hdepth (by omega)

/-! ## Programs -/

section

variable {sub : Level} (h : sub.Runs 1)
include h

theorem reads_topStmt : Reads (parseStmt sub ⟨0, 0⟩ true) :=
  @reads_parseStmt sub ⟨0, 0⟩ (fun _ => h) true

omit h in
/-- The way to the next statement. -/
theorem framed_recover (e : ParseError) (stmts : Program) :
    Framed (pushError e >>= fun _ => synchronize >>= fun _ => skipNewlines >>= fun _ =>
      pure (.inl stmts) : P (Program ⊕ Program)) :=
  meets_bind (framed_pushError _) fun _ => meets_bind framed_synchronize fun _ =>
    meets_bind framed_skipNewlines fun _ => meets_pure _

omit h in
theorem programStep_run (stmts : Program) (s : State) :
    (programStep sub stmts).run s =
      if (headToken s.rest).mark? = some .eof then (.ok (.inr stmts), s)
      else ((parseStmt sub ⟨0, 0⟩ true).attempt Stop.raised? >>= afterStmt stmts).run s := by
  by_cases hend : (headToken s.rest).mark? = some .eof
  · simp only [programStep, isAtEnd, peekMark, bind_run, gets_run, pure_run, hend, decide_true,
      if_true]
  · rw [if_neg hend]
    have hread : (isAtEnd).run s = (.ok false, s) := by
      simp only [isAtEnd, peekMark, bind_run, gets_run, pure_run, hend, decide_false]
    rw [programStep, bind_run_ok hread, if_neg Bool.false_ne_true]

omit h in
theorem framed_afterStmt (stmts : Program) (r : Except ParseError Stmt) :
    Framed (afterStmt stmts r) := by
  cases r with
  | ok s => exact meets_bind framed_skipNewlines fun _ => meets_pure _
  | error e => exact framed_recover e stmts

theorem framed_programStep (stmts : Program) : Framed (programStep sub stmts) := by
  intro s
  rw [programStep_run]
  split
  · exact frame.refl s
  · refine meets_bind (meets_attempt (reads_topStmt h).framed ?_) (framed_afterStmt stmts) s
    intro e e' s t _ hrel
    exact ⟨hrel.1, hrel.2.1, by simp⟩

/-- The recovery from an error that took no token takes one: the statement did not begin
with a keyword. -/
theorem recover_takes {s u : State} {e : ParseError} {stmts : Program}
    (hend : (headToken s.rest).mark? ≠ some .eof)
    (hstmt : (parseStmt sub ⟨0, 0⟩ true).run s = (.error (.raised e), u)) :
    ((afterStmt stmts (.error e)).run u).2.rest.length < s.rest.length := by
  have hsuffix : u.rest <:+ s.rest := by
    have := ((reads_topStmt h).framed s).1
    rwa [hstmt] at this
  have hle := hsuffix.length_le
  by_cases hsame : u.rest = s.rest
  · have hkeyword : ∀ m, (headToken u.rest).mark? = some m → m.beginsStmt = false := by
      intro m hm
      by_contra hbegins
      have hinner := h.keyword true ⟨1, 0⟩ s m rfl (hsame ▸ hm) (by simpa using hbegins)
      have hless := shorter_then (f := checkStmtDepth) hinner fun _ => framed_checkStmtDepth _
      have hrun : (parseStmt sub ⟨0, 0⟩ true).run s
          = (sub.parseStmtInner true ⟨1, 0⟩ >>= checkStmtDepth).run s := rfl
      rw [← hrun, hstmt, hsame] at hless
      exact Nat.lt_irrefl _ hless
    have hsync := synchronize_takes (s := { u with errors := u.errors ++ [e] })
      (by rw [hsame]; exact hend) hkeyword
    rw [← hsame]
    exact shorter_then (s := { u with errors := u.errors ++ [e] }) hsync fun _ =>
      meets_bind framed_skipNewlines fun _ => meets_pure (.inl stmts : Program ⊕ Program)
  · have hne : u.rest.length ≠ s.rest.length := fun hlen => hsame (hsuffix.eq_of_length hlen)
    have := framed_le (framed_afterStmt stmts (.error e)) u
    omega

/-- Each round takes a token, also one that recovers from an error. -/
theorem takesRounds_programStep : TakesRounds (programStep sub) := by
  intro stmts s stmts' t hrun
  rw [programStep_run] at hrun
  split at hrun
  case isTrue => cases hrun
  case isFalse hend =>
    have hne : s.rest ≠ [] := mark_ne_eof hend
    have hframed := (reads_topStmt h).framed s
    rcases hstmt : (parseStmt sub ⟨0, 0⟩ true).run s with ⟨e | a, u⟩ <;> rw [hstmt] at hframed
    · cases e with
      | spent => exact absurd rfl hframed.2.2
      | raised e =>
        rw [bind_run_ok (attempt_run_some (f := Stop.raised?) hstmt rfl)] at hrun
        have hless := @recover_takes _ h _ _ _ stmts hend hstmt
        rwa [hrun] at hless
    · rw [bind_run_ok (attempt_run_ok hstmt)] at hrun
      have hless := (reads_topStmt h).shortens s a u hne hstmt
      have hle := framed_le (framed_afterStmt stmts (.ok a)) u
      rw [hrun] at hle
      exact Nat.lt_of_le_of_lt hle hless

end

/-- The level that `parse` runs on. -/
theorem topLevel_runs : (level maxAstDepth).Runs 1 :=
  level_runs (by decide) (by omega)

theorem framed_parseProgram : Framed parseProgram :=
  meets_bind framed_skipNewlines fun _ =>
    framed_loop (takesRounds_programStep topLevel_runs) (framed_programStep topLevel_runs) []

/-- It stops with no error: `parse` recovers from each. -/
def calm : Contract State Stop where
  rel o _ _ := ∀ e, o ≠ some (.raised e)
  refl _ _ := by simp
  trans _ h' := h'

theorem calm_skipNewlines : Meets calm skipNewlines := by
  refine meets_loop takesRounds_skip (fun _ => meets_bind (meets_gets _) fun _ => ?_) ()
  exact meets_ite (meets_bind (fun _ _ => by simp [advance, stopOf]) fun _ => meets_pure _)
    (meets_pure _)

theorem calm_synchronize : Meets calm synchronize := by
  have hadvance : ∀ r : Unit ⊕ Unit, Meets calm (advance >>= fun _ => pure r) := fun r =>
    meets_bind (fun _ _ => by simp [advance, stopOf]) fun _ => meets_pure _
  refine meets_loop takesRounds_sync (fun _ => meets_bind (meets_gets _) fun mark => ?_) ()
  split
  · exact meets_pure _
  · exact hadvance _
  · exact meets_ite (meets_pure _) (hadvance _)
  · exact hadvance _

theorem calm_attempt (m : P α) : Meets calm (m.attempt Stop.raised?) := by
  intro s e'
  rcases h : m.run s with ⟨e | a, t⟩
  · cases e with
    | raised e =>
      rw [attempt_run_some (f := Stop.raised?) h rfl]
      simp [stopOf]
    | spent =>
      rw [attempt_run_none (f := Stop.raised?) h rfl]
      simp [stopOf]
  · rw [attempt_run_ok h]
    simp [stopOf]

theorem calm_afterStmt (stmts : Program) (r : Except ParseError Stmt) :
    Meets calm (afterStmt stmts r) := by
  cases r with
  | ok s => exact meets_bind calm_skipNewlines fun _ => meets_pure _
  | error e =>
    exact meets_bind (fun _ _ => by simp [pushError, stopOf]) fun _ =>
      meets_bind calm_synchronize fun _ => meets_bind calm_skipNewlines fun _ => meets_pure _

theorem calm_programStep (sub : Level) (stmts : Program) : Meets calm (programStep sub stmts) := by
  intro s
  rw [programStep_run]
  split
  · exact calm.refl s
  · exact meets_bind (calm_attempt _) (calm_afterStmt stmts) s

theorem calm_parseProgram : Meets calm parseProgram :=
  meets_bind calm_skipNewlines fun _ =>
    meets_loop (takesRounds_programStep topLevel_runs) (calm_programStep _) []

/-- The loop of `parse` ends. -/
theorem parseProgram_run (s : State) : ∃ program t, parseProgram.run s = (.ok program, t) := by
  have hframed := (framed_parseProgram s).2.2
  have hcalm := calm_parseProgram s
  rcases hrun : parseProgram.run s with ⟨e | program, t⟩ <;> rw [hrun] at hframed hcalm
  · cases e with
    | raised e => exact absurd rfl (hcalm e)
    | spent => exact absurd rfl hframed
  · exact ⟨program, t, rfl⟩

/-- The parser accepts or rejects. -/
theorem parse_answers (tokens : List Spanned) : parse tokens ≠ .spent := by
  obtain ⟨program, t, hrun⟩ := parseProgram_run ⟨tokens, []⟩
  simp only [parse, hrun]
  split <;> simp

/-! ## The depth of what is accepted -/

theorem parseStmt_within {sub : Level} {ctx : Ctx} {isTopLevel : Bool} {s t : State} {stmt : Stmt}
    (h : (parseStmt sub ctx isTopLevel).run s = (.ok stmt, t)) :
    stmt.excessiveDepthLine 1 = none := by
  obtain ⟨a, u, -, hcheck⟩ := bind_run_eq_ok.1 h
  rw [checkStmtDepth, stmtDepthExceedsLimit] at hcheck
  split at hcheck
  · cases hcheck
  · next hlimit =>
    cases hcheck
    simpa using hlimit

theorem stmtsExcessiveDepthLine_append (depth : Nat) (a b : List Stmt) :
    stmtsExcessiveDepthLine depth (a ++ b) =
      (stmtsExcessiveDepthLine depth a <|> stmtsExcessiveDepthLine depth b) := by
  induction a with
  | nil => simp [stmtsExcessiveDepthLine]
  | cons s rest ih =>
    simp only [List.cons_append, stmtsExcessiveDepthLine, ih]
    cases s.excessiveDepthLine depth <;> rfl

/-- A round keeps the statements that are within the limit. -/
theorem programStep_within {sub : Level} {stmts : Program} {s t : State} {r : Program ⊕ Program}
    (hstmts : stmtsExcessiveDepthLine 1 stmts = none)
    (hrun : (programStep sub stmts).run s = (.ok r, t)) :
    stmtsExcessiveDepthLine 1 (r.elim id id) = none := by
  rw [programStep_run] at hrun
  split at hrun
  · cases hrun
    exact hstmts
  · obtain ⟨r', u, hattempt, hafter⟩ := bind_run_eq_ok.1 hrun
    cases r' with
    | ok stmt =>
      obtain ⟨-, v, -, hpure⟩ := bind_run_eq_ok.1 hafter
      cases hpure
      rcases hstmt : (parseStmt sub ⟨0, 0⟩ true).run s with ⟨e | a, w⟩
      · cases e <;> simp [attempt, hstmt, Stop.raised?] at hattempt
      · rw [attempt_run_ok hstmt] at hattempt
        cases hattempt
        simp only [Sum.elim_inl, id, stmtsExcessiveDepthLine_append, stmtsExcessiveDepthLine,
          hstmts, parseStmt_within hstmt]
        rfl
    | error e =>
      obtain ⟨-, v, -, h1⟩ := bind_run_eq_ok.1 hafter
      obtain ⟨-, w, -, h2⟩ := bind_run_eq_ok.1 h1
      obtain ⟨-, x, -, hpure⟩ := bind_run_eq_ok.1 h2
      cases hpure
      exact hstmts

theorem parseProgram_within {s t : State} {program : Program}
    (h : parseProgram.run s = (.ok program, t)) : stmtsExcessiveDepthLine 1 program = none := by
  obtain ⟨-, u, -, hloop⟩ := bind_run_eq_ok.1 h
  have hind := @loop_induction _ _ _ _ Stop.spent _ _ (takesRounds_programStep topLevel_runs)
    (motive := fun stmts _ r => stmtsExcessiveDepthLine 1 stmts = none →
      ∀ p v, r = (.ok p, v) → stmtsExcessiveDepthLine 1 p = none)
    (fun _ _ _ _ _ _ _ _ hr => by cases hr)
    (fun _ _ _ _ hstep hstmts _ _ hr => by
      cases hr
      exact programStep_within hstmts hstep)
    (fun _ _ _ _ _ hstep ih hstmts => ih (programStep_within hstmts hstep))
  exact hind [] u rfl program t hloop

/-- What the parser accepts passes the check before execution. -/
theorem validateProgramDepth_parse {tokens : List Spanned} {program : Program}
    (h : parse tokens = .accepted program) : validateProgramDepth program = .ok () := by
  obtain ⟨program', t, hrun⟩ := parseProgram_run ⟨tokens, []⟩
  simp only [parse, hrun] at h
  split at h
  · cases h
    simp only [validateProgramDepth, parseProgram_within hrun]
  · cases h

/-- Lexing and parsing a text end, with a recursion that the limit on the depth bounds:
the lexer comes to the end of the text and its f-strings nest no deeper than the limit;
the loops that recover from an error take a token in each round; the parser, which goes
through its guard `maxAstDepth` times at most, accepts or rejects; what it accepts passes
the check before execution. -/
theorem parsing_ends (parseFloat : String → Option UInt64) (text : List Char) :
    (∃ tokens line, tokenize parseFloat text = tokens ++ [.mk (.mark .eof) line]) ∧
      tokensNesting (tokenize parseFloat text) ≤ maxAstDepth ∧
      TakesRounds syncStep ∧ TakesRounds discardStep ∧
      TakesRounds (programStep (level maxAstDepth)) ∧
      (∀ n ctx terminators, maxAstDepth ≤ ctx.depth + n →
        TakesRounds (blockStep (level n) ctx terminators)) ∧
      match parse (tokenize parseFloat text) with
      | .accepted program => validateProgramDepth program = .ok ()
      | .rejected errors => errors ≠ []
      | .spent => False := by
  obtain ⟨tokens, line, htokens, -⟩ := tokenize_eof parseFloat text
  refine ⟨⟨tokens, line, htokens⟩, nesting_tokenize parseFloat text, takesRounds_sync,
    takesRounds_discard, takesRounds_programStep topLevel_runs, ?_, ?_⟩
  · intro n ctx terminators hn
    exact takesRounds_blockStep (fun hdepth => level_runs hdepth (by omega)) terminators
  · have hvalid := @validateProgramDepth_parse (tokenize parseFloat text)
    have hanswer := parse_answers (tokenize parseFloat text)
    split
    · next h => exact hvalid h
    · next errors h =>
      rw [parse] at h
      split at h
      · split at h
        · cases h
        · next hne =>
          cases h
          simpa using hne
      · cases h
    · next h => exact hanswer h

end Tsumugi.Syntax
