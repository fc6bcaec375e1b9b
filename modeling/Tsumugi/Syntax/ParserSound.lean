import Tsumugi.Syntax.ParserComplete
import Tsumugi.Syntax.ParserStill

/-!
# What the parser accepts is derived

A parse function that returns, with no error in the list of errors, has read its phrase.
The induction is on the levels, from the guard on the depth inwards; over one level each
function has a `Spec`: the phrase between the tokens it begins at and those it leaves.

Result: `parse_sound`: an accepted program is derived from its tokens, if each f-string
part stands on one line.
-/

namespace Tsumugi.Syntax

open Proc

variable {α β γ : Type}

/-! ## What is found -/

/-- Each f-string part stands on one line, at any depth. -/
inductive OneLineParts : List Spanned → Prop
  | intro {ts} (hline : ∀ t ∈ ts, ∀ parts, t.token = .fStr parts → ∀ tokens,
      FStrPart.expr tokens ∈ parts → NoNewline tokens)
      (hparts : ∀ t ∈ ts, ∀ parts, t.token = .fStr parts → ∀ tokens,
      FStrPart.expr tokens ∈ parts → OneLineParts tokens) : OneLineParts ts

theorem OneLineParts.suffix {ts r : List Spanned} (h : OneLineParts ts) (hr : r <:+ ts) :
    OneLineParts r := by
  obtain ⟨hline, hparts⟩ := h
  exact ⟨fun t ht => hline t (hr.subset ht), fun t ht => hparts t (hr.subset ht)⟩

/-- What a function returns when it leaves no errors, from the tokens it begins at to those
that it leaves. -/
structure Spec (m : P α) (G : α → List Spanned → List Spanned → Prop) : Prop where
  framed : Framed m
  finds : ∀ s a t, m.run s = (.ok a, t) → t.errors = [] → OneLineParts s.rest →
    G a s.rest t.rest

variable {G : α → List Spanned → List Spanned → Prop}

theorem Spec.mono {G' : α → List Spanned → List Spanned → Prop} {m : P α} (h : Spec m G)
    (hG : ∀ a ts r, G a ts r → G' a ts r) : Spec m G' :=
  ⟨h.framed, fun s a t hrun herrors hparts => hG _ _ _ (h.finds s a t hrun herrors hparts)⟩

theorem noErrors {s t : State} (h : s.errors <+: t.errors) (ht : t.errors = []) : s.errors = [] := by
  rw [ht] at h
  exact List.prefix_nil.1 h

theorem Spec.bind {m : P α} {f : α → P β} {G' : α → β → List Spanned → List Spanned → Prop}
    (hm : Spec m G) (hf : ∀ a, Spec (f a) (G' a)) :
    Spec (m >>= f) fun b ts r => ∃ a mid, G a ts mid ∧ G' a b mid r := by
  refine ⟨meets_bind hm.framed fun a => (hf a).framed, fun s b t hrun herrors hparts => ?_⟩
  obtain ⟨a, u, hm', hf'⟩ := bind_run_eq_ok.1 hrun
  have hframem := hm.framed s
  have hframef := (hf a).framed u
  rw [hm'] at hframem
  rw [hf'] at hframef
  exact ⟨a, u.rest, hm.finds s a u hm' (noErrors hframef.2.1 herrors) hparts,
    (hf a).finds u b t hf' herrors (hparts.suffix hframem.1)⟩

theorem spec_pure (a : α) : Spec (pure a) fun b ts r => b = a ∧ r = ts := by
  refine ⟨meets_pure a, fun s b t hrun _ _ => ?_⟩
  cases hrun
  exact ⟨rfl, rfl⟩

theorem spec_fail (line : Nat) (problem : Problem) :
    Spec (fail line problem : P α) fun _ _ _ => False :=
  ⟨framed_fail _ _, fun s a t hrun _ _ => by cases hrun⟩

theorem spec_currentLine : Spec currentLine fun l ts r => l = headLine ts ∧ r = ts := by
  refine ⟨meets_gets _, fun s l t hrun _ _ => ?_⟩
  cases hrun
  exact ⟨rfl, rfl⟩

theorem spec_peekMark : Spec peekMark fun m ts r => m = headMark ts ∧ r = ts := by
  refine ⟨meets_gets _, fun s m t hrun _ _ => ?_⟩
  cases hrun
  exact ⟨rfl, rfl⟩

theorem spec_peekToken : Spec peekToken fun tok ts r => tok = headToken ts ∧ r = ts := by
  refine ⟨meets_gets _, fun s tok t hrun _ _ => ?_⟩
  cases hrun
  exact ⟨rfl, rfl⟩

theorem spec_rest : Spec (gets State.rest) fun rest ts r => rest = ts ∧ r = ts := by
  refine ⟨meets_gets _, fun s rest t hrun _ _ => ?_⟩
  cases hrun
  exact ⟨rfl, rfl⟩

theorem spec_advance : Spec advance fun _ ts r => r = ts.tail := by
  refine ⟨framed_advance, fun s a t hrun _ _ => ?_⟩
  cases hrun
  rfl

theorem spec_advanceSpanned :
    Spec advanceSpanned fun t ts r => t = ts.head?.getD (tok .eof 0) ∧ r = ts.tail := by
  refine ⟨framed_advanceSpanned, fun s a t hrun _ _ => ?_⟩
  cases hrun
  exact ⟨rfl, rfl⟩

theorem spec_skipNewlines : Spec skipNewlines fun _ ts r => r = dropNewlines ts := by
  refine ⟨framed_skipNewlines, fun s a t hrun _ _ => ?_⟩
  rw [parses_skipNewlines s.rest s.errors] at hrun
  cases hrun
  rfl

/-- A push leaves an error. -/
theorem spec_pushError (e : ParseError) : Spec (pushError e) fun _ _ _ => False := by
  refine ⟨framed_pushError e, fun s a t hrun herrors _ => ?_⟩
  cases hrun
  simp at herrors

theorem tok_of_mark {t : Spanned} {m : Mark} (h : t.token.mark? = some m) : t = tok m t.line := by
  obtain ⟨token, line⟩ := t
  have htoken : token = .mark m := Token.mark?_eq_some.1 h
  rw [htoken]
  rfl

/-- The first token, where its mark is known. -/
theorem cons_of_headMark {ts : List Spanned} {m : Mark} (h : headMark ts = some m)
    (hm : m ≠ .eof) : ts = tok m (headLine ts) :: ts.tail := by
  match ts with
  | [] =>
    cases h
    exact absurd rfl hm
  | t :: ts => exact congrArg (· :: ts) (tok_of_mark h)

theorem spec_expect {mark : Mark} (hmark : mark ≠ .eof) :
    Spec (expect mark) fun _ ts r => ∃ l, ts = tok mark l :: r := by
  refine ⟨framed_expect mark, fun s a t hrun _ _ => ?_⟩
  obtain ⟨spanned, u, hadvance, hrun⟩ := bind_run_eq_ok.1 hrun
  cases hadvance
  split at hrun
  · next hm =>
    cases hrun
    obtain ⟨rest, errors⟩ := s
    cases rest with
    | nil => exact absurd (Option.some.inj hm).symm hmark
    | cons first rest => exact ⟨first.line, congrArg (· :: rest) (tok_of_mark hm)⟩
  · split at hrun <;> cases hrun

theorem spec_expectName (place : NamePlace) :
    Spec (expectName place) fun name ts r => ∃ l, ts = .mk (.ident name) l :: r := by
  refine ⟨framed_expectName place, fun s a t hrun _ _ => ?_⟩
  obtain ⟨spanned, u, hadvance, hrun⟩ := bind_run_eq_ok.1 hrun
  cases hadvance
  split at hrun
  · next name hname =>
    cases hrun
    obtain ⟨rest, errors⟩ := s
    cases rest with
    | nil => cases hname
    | cons first rest =>
      obtain ⟨token, l⟩ := first
      have htoken : token = .ident _ := hname
      rw [htoken]
      exact ⟨l, rfl⟩
  · cases hrun

theorem spec_takeName :
    Spec takeName fun name ts r => ∀ x, headToken ts = .ident x →
      ∃ l, ts = .mk (.ident name) l :: r := by
  refine ⟨framed_takeName, fun s a t hrun _ _ x hx => ?_⟩
  obtain ⟨l, rest, hrest⟩ := ident_of_headToken hx
  obtain ⟨rest', errors⟩ := s
  cases hrest
  cases hrun
  exact ⟨l, rfl⟩

theorem spec_expectNewline : Spec expectNewline fun _ ts r =>
    (∃ l, ts = tok .newline l :: r) ∨ (headMark ts = some .eof ∧ r = ts) := by
  refine ⟨framed_expectNewline, fun s a t hrun _ _ => ?_⟩
  rw [expectNewline, currentLine, read_run, peekToken, read_run] at hrun
  split at hrun
  · next hhead =>
    cases hrun
    exact .inl ⟨_, cons_of_headMark (Token.mark?_eq_some.2 hhead) (by decide)⟩
  · next hhead =>
    cases hrun
    exact .inr ⟨Token.mark?_eq_some.2 hhead, rfl⟩
  · cases hrun

theorem spec_expectNewlineOrEof : Spec expectNewlineOrEof fun _ ts r => LineEnd ts r := by
  refine ⟨framed_expectNewlineOrEof, fun s a t hrun _ _ => ?_⟩
  rw [expectNewlineOrEof, currentLine, read_run, peekToken, read_run] at hrun
  split at hrun
  · next hhead =>
    cases hrun
    rw [cons_of_headMark (Token.mark?_eq_some.2 hhead) (by decide)]
    exact .newline
  · next hhead =>
    cases hrun
    exact .eof (Token.mark?_eq_some.2 hhead)
  · cases hrun

theorem spec_checkExprDepth (e : Expr) (line : Nat) :
    Spec (checkExprDepth e line) fun e' ts r => e' = e ∧ r = ts := by
  unfold checkExprDepth
  split
  · exact (spec_fail _ _).mono fun _ _ _ h => h.elim
  · exact spec_pure e

theorem spec_checkStmtDepth (s : Stmt) :
    Spec (checkStmtDepth s) fun s' ts r => s' = s ∧ r = ts := by
  unfold checkStmtDepth
  split
  · exact (spec_fail _ _).mono fun _ _ _ h => h.elim
  · exact spec_pure s

theorem spec_withParseDepth {ctx : Ctx} {expression : Bool} {parse : Ctx → P α}
    (h : ctx.depth < maxAstDepth → Spec (parse { ctx with depth := ctx.depth + 1 }) G) :
    Spec (withParseDepth ctx expression parse) fun a ts r => ctx.depth < maxAstDepth ∧ G a ts r := by
  unfold withParseDepth
  split
  · exact (spec_currentLine.bind fun _ => spec_fail _ _).mono fun _ _ _ ⟨_, _, _, h⟩ => h.elim
  · next hd => exact (h (by omega)).mono fun _ _ _ hG => ⟨by omega, hG⟩

/-- A loop, from its last round back. -/
theorem spec_loop {step : β → P (β ⊕ γ)} (htakes : TakesRounds step)
    {S : β → β ⊕ γ → List Spanned → List Spanned → Prop}
    {R : β → γ → List Spanned → List Spanned → Prop} (hstep : ∀ b, Spec (step b) (S b))
    (hdone : ∀ b c ts r, S b (.inr c) ts r → R b c ts r)
    (hnext : ∀ b b' c ts mid r, S b (.inl b') ts mid → R b' c mid r → R b c ts r) (b : β) :
    Spec (tokenLoop step b) (R b) := by
  refine ⟨framed_loop htakes (fun b => (hstep b).framed) b, fun s c t hrun herrors hparts => ?_⟩
  have hind := @loop_induction _ _ _ _ Stop.spent _ _ htakes
    ( fun b s res => s.errors <+: res.2.errors ∧ ∀ c t, res = (.ok c, t) →
      t.errors = [] → OneLineParts s.rest → R b c s.rest t.rest)
    (fun b s e t hrun => by
      have hframe := (hstep b).framed s
      rw [hrun] at hframe
      exact ⟨hframe.2.1, fun c u hres => by cases hres⟩)
    (fun b s c t hrun => by
      have hframe := (hstep b).framed s
      rw [hrun] at hframe
      refine ⟨hframe.2.1, fun c' u hres herrors hparts => ?_⟩
      cases hres
      exact hdone b c _ _ ((hstep b).finds s _ t hrun herrors hparts))
    (fun b s b' t res hrun ih => by
      have hframe := (hstep b).framed s
      rw [hrun] at hframe
      refine ⟨hframe.2.1.trans ih.1, fun c u hres herrors hparts => ?_⟩
      have hnone : t.errors = [] := by
        refine noErrors (t := u) ?_ herrors
        have := ih.1
        rwa [hres] at this
      exact hnext b b' c _ _ _ ((hstep b).finds s _ t hrun hnone hparts)
        (ih.2 c u hres herrors (hparts.suffix hframe.1)))
  exact (hind b s).2 c t hrun herrors hparts

/-- What a loop adds to the end of a list. -/
def Adds (G : List β → List Spanned → List Spanned → Prop) (xs xs' : List β)
    (ts r : List Spanned) : Prop := ∃ more, xs' = xs ++ more ∧ G more ts r

/-- A loop that adds an element in each round. -/
theorem spec_collect {step : List β → P (List β ⊕ List β)} (htakes : TakesRounds step)
    {S : List β → List β ⊕ List β → List Spanned → List Spanned → Prop}
    {G : List β → List Spanned → List Spanned → Prop} (hstep : ∀ xs, Spec (step xs) (S xs))
    (hdone : ∀ xs xs' ts r, S xs (.inr xs') ts r → xs' = xs ∧ G [] ts r)
    (hnext : ∀ xs xs' ts mid, S xs (.inl xs') ts mid →
      ∃ x, xs' = xs ++ [x] ∧ ∀ more r, G more mid r → G (x :: more) ts r) (xs : List β) :
    Spec (tokenLoop step xs) (Adds G xs) := by
  refine spec_loop (R := Adds G) htakes hstep (fun xs xs' ts r h => ?_)
    (fun xs xs' xs'' ts mid r h hmore => ?_) xs
  · obtain ⟨rfl, hnil⟩ := hdone xs xs' ts r h
    exact ⟨[], (List.append_nil _).symm, hnil⟩
  · obtain ⟨x, rfl, hcons⟩ := hnext xs xs' ts mid h
    obtain ⟨more, rfl, hmore⟩ := hmore
    exact ⟨x :: more, List.append_assoc _ _ _, hcons more r hmore⟩

/-! ## Choices -/

theorem spec_true {m : P α} (h : Framed m) : Spec m fun _ _ _ => True :=
  ⟨h, fun _ _ _ _ _ _ => trivial⟩

/-- The parts of the f-strings are known to stand on one line. -/
theorem Spec.oneLine {m : P α} (h : Spec m G) :
    Spec m fun a ts r => OneLineParts ts ∧ G a ts r :=
  ⟨h.framed, fun s a t hrun herrors hparts => ⟨hparts, h.finds s a t hrun herrors hparts⟩⟩

/-- What follows depends on the first mark. -/
theorem spec_onMark {f : Option Mark → P α}
    (hf : ∀ m, Spec (f m) fun a ts r => headMark ts = m → G a ts r) :
    Spec (peekMark >>= f) G :=
  ⟨meets_bind (meets_gets _) fun m => (hf m).framed,
    fun s a t hrun herrors hparts => (hf _).finds s a t hrun herrors hparts rfl⟩

/-- What follows depends on the first token. -/
theorem spec_onToken {f : Token → P α}
    (hf : ∀ tok, Spec (f tok) fun a ts r => headToken ts = tok → G a ts r) :
    Spec (peekToken >>= f) G :=
  ⟨meets_bind (meets_gets _) fun tok => (hf tok).framed,
    fun s a t hrun herrors hparts => (hf _).finds s a t hrun herrors hparts rfl⟩

/-- What follows depends on the first line. -/
theorem spec_onLine {f : Nat → P α}
    (hf : ∀ line, Spec (f line) fun a ts r => headLine ts = line → G a ts r) :
    Spec (currentLine >>= f) G :=
  ⟨meets_bind (meets_gets _) fun line => (hf line).framed,
    fun s a t hrun herrors hparts => (hf _).finds s a t hrun herrors hparts rfl⟩

/-- What follows depends on the tokens. -/
theorem spec_onRest {f : List Spanned → P α}
    (hf : ∀ rest, Spec (f rest) fun a ts r => rest = ts → G a ts r) :
    Spec (gets State.rest >>= f) G :=
  ⟨meets_bind (meets_gets _) fun rest => (hf rest).framed,
    fun s a t hrun herrors hparts => (hf _).finds s a t hrun herrors hparts rfl⟩

theorem spec_ite {c : Prop} [Decidable c] {m m' : P α} (hm : c → Spec m G)
    (hm' : ¬c → Spec m' G) : Spec (if c then m else m') G := by
  split
  · next hc => exact hm hc
  · next hc => exact hm' hc

/-- The first token is taken. -/
theorem spec_take {f : Unit → P α} (hf : Spec (f ()) G) :
    Spec (advance >>= f) fun a ts r => ∀ t ts', ts = t :: ts' → G a ts' r := by
  refine (spec_advance.bind fun _ => hf).mono ?_
  rintro a ts r ⟨_, _, rfl, h⟩ t ts' rfl
  exact h

/-- The first token is taken, and its line kept. -/
theorem spec_open {f : Nat → P α} {G : Nat → α → List Spanned → List Spanned → Prop}
    (hf : ∀ line, Spec (f line) (G line)) :
    Spec (currentLine >>= fun line => advance >>= fun _ => f line) fun a ts r =>
      ∀ t ts', ts = t :: ts' → G t.line a ts' r := by
  refine (spec_currentLine.bind fun line => spec_take (hf line)).mono ?_
  rintro a ts r ⟨_, _, ⟨rfl, rfl⟩, h⟩ t ts' rfl
  exact h t ts' rfl

/-- The first token, where it is known. -/
theorem cons_of_headToken {ts : List Spanned} {t : Token} (h : headToken ts = t)
    (ht : t ≠ .mark .eof) : ∃ l rest, ts = .mk t l :: rest := by
  match ts with
  | [] => exact absurd h.symm ht
  | .mk _ l :: rest =>
    cases h
    exact ⟨l, rest, rfl⟩

theorem cons_of_mark {ts : List Spanned} {m : Mark} (h : headMark ts = some m) (hm : m ≠ .eof) :
    ∃ l rest, ts = tok m l :: rest :=
  cons_of_headToken (Token.mark?_eq_some.1 h) fun heof => hm (by cases heof; rfl)

/-- A mark that is taken where it stands. -/
theorem spec_optional {m : Mark} (hm : m ≠ .eof) {f : Unit → P α} {m' : P α}
    {G' : α → List Spanned → List Spanned → Prop} (hf : Spec (f ()) G) (hm' : Spec m' G') :
    Spec (peekMark >>= fun mark => if mark = some m then advance >>= f else m') fun a ts r =>
      (∃ l mid, ts = tok m l :: mid ∧ G a mid r) ∨ (headMark ts ≠ some m ∧ G' a ts r) := by
  refine spec_onMark fun mark => spec_ite (fun hmark => ?_) fun hmark => ?_
  · subst hmark
    refine (spec_take hf).mono fun a ts r h hhead => ?_
    obtain ⟨l, rest, rfl⟩ := cons_of_mark hhead hm
    exact .inl ⟨l, rest, rfl, h _ _ rfl⟩
  · exact hm'.mono fun a ts r h hhead => .inr ⟨hhead ▸ hmark, h⟩

/-! ## Expressions -/

/-- Inside a function. -/
def Ctx.inFn (ctx : Ctx) : Bool := decide (0 < ctx.fnDepth)

/-- What the functions of a level find at a depth. -/
structure Level.Finds (sub : Level) (depth : Nat) : Prop where
  parseOr : ∀ ctx, ctx.depth = depth →
    Spec (sub.parseOr ctx) fun e => Derives depth ctx.inFn (.binary .or e)
  parseUnary : ∀ ctx, ctx.depth = depth →
    Spec (sub.parseUnary ctx) fun e => Derives depth ctx.inFn (.unary e)
  parseStmtInner : ∀ top ctx, ctx.depth = depth →
    Spec (sub.parseStmtInner top ctx) fun s => Derives depth ctx.inFn (.form top s)
  parseIf : ∀ ctx, ctx.depth = depth → Spec (sub.parseIf ctx) fun s ts r =>
    headMark ts = some .«if» ∨ headMark ts = some .elif →
      Derives depth ctx.inFn (.conditional s) ts r

/-- The parameters after the first name. -/
theorem spec_moreParams (d : Nat) (f : Bool) (names : List String) :
    Spec (tokenLoop moreParams names) (Adds (fun more => Derives d f (.moreParams more)) names) := by
  refine spec_collect takesRounds_moreParams (fun names => spec_optional (by decide)
    ((spec_expectName .param).bind fun name => spec_pure (Sum.inl (names ++ [name])))
    (spec_pure (Sum.inr names))) ?_ ?_ names
  · rintro names names' ts r (⟨_, _, rfl, _, _, _, h, _⟩ | ⟨_, h, rfl⟩)
    · cases h
    · cases h
      exact ⟨rfl, .moreParamsNil⟩
  · rintro names names' ts mid (⟨l, _, rfl, name, _, ⟨l', rfl⟩, hnames, rfl⟩ | ⟨_, h, _⟩)
    · cases hnames
      exact ⟨name, rfl, fun _ _ => .moreParamsCons⟩
    · cases h

theorem spec_parseParams (d : Nat) (f : Bool) :
    Spec parseParams fun names ts r => Derives d f (.params names) ts r := by
  refine spec_onMark fun mark => spec_ite (fun hmark => ?_) fun _ => ?_
  · subst hmark
    refine (spec_pure []).mono ?_
    rintro names ts r ⟨rfl, rfl⟩ hhead
    obtain ⟨l, rest, rfl⟩ := cons_of_mark hhead (by decide)
    exact .paramsNil
  · refine ((spec_expectName .param).bind fun name => spec_moreParams d f [name]).mono ?_
    rintro names ts r ⟨name, mid, ⟨l, rfl⟩, more, rfl, hmore⟩ _
    exact .paramsCons hmore

section

variable {sub : Level} {ctx : Ctx} (h : ctx.depth < maxAstDepth → sub.Runs (ctx.depth + 1))
  (hf : ctx.depth < maxAstDepth → sub.Finds (ctx.depth + 1))
include hf

theorem spec_parseExpr : Spec (parseExpr sub ctx) fun e =>
    Derives ctx.depth ctx.inFn (.expr e) := by
  refine (spec_currentLine.bind fun line =>
    (spec_withParseDepth fun hd => (hf hd).parseOr _ rfl).bind fun e =>
      spec_checkExprDepth e line).mono ?_
  rintro e ts r ⟨_, _, ⟨rfl, rfl⟩, _, _, ⟨hd, he⟩, rfl, rfl⟩
  exact .expr hd he

include h

/-- The arguments after the first one. -/
theorem spec_moreArgs (args : List Expr) :
    Spec (tokenLoop (moreArgs sub ctx) args)
      (Adds (fun more => Derives ctx.depth ctx.inFn (.moreExprs false more)) args) := by
  refine spec_collect (takesRounds_moreArgs h) (fun args => spec_optional (by decide)
    ((spec_parseExpr hf).bind fun e => spec_pure (Sum.inl (args ++ [e])))
    (spec_pure (Sum.inr args))) ?_ ?_ args
  · rintro args args' ts r (⟨_, _, rfl, _, _, _, h, _⟩ | ⟨_, h, rfl⟩)
    · cases h
    · cases h
      exact ⟨rfl, .moreNil⟩
  · rintro args args' ts mid (⟨l, _, rfl, e, _, he, hargs, rfl⟩ | ⟨_, h, _⟩)
    · cases hargs
      exact ⟨e, rfl, fun _ _ => .moreCons he⟩
    · cases h

theorem spec_parseArgs : Spec (parseArgs sub ctx) fun args =>
    Derives ctx.depth ctx.inFn (.args args) := by
  refine spec_onMark fun mark => spec_ite (fun hmark => ?_) fun _ => ?_
  · subst hmark
    refine (spec_pure []).mono ?_
    rintro args ts r ⟨rfl, rfl⟩ hhead
    obtain ⟨l, rest, rfl⟩ := cons_of_mark hhead (by decide)
    exact .argsNil
  · refine ((spec_parseExpr hf).bind fun e => spec_moreArgs h hf [e]).mono ?_
    rintro args ts r ⟨e, mid, he, more, rfl, hmore⟩ _
    exact .argsCons he hmore

/-- The items of a list literal after the first one. -/
theorem spec_moreItems (items : List Expr) :
    Spec (tokenLoop (moreItems sub ctx) items)
      (Adds (fun more => Derives ctx.depth ctx.inFn (.moreExprs true more)) items) := by
  refine spec_collect (takesRounds_moreItems h) (fun items => spec_optional (by decide)
    (spec_onMark fun mark => spec_ite
      (G := fun res ts r => headMark ts = mark → (headMark ts = some .rBracket ∧
        res = Sum.inr items ∧ r = ts) ∨ ∃ e, Derives ctx.depth ctx.inFn (.expr e) ts r ∧
          res = Sum.inl (items ++ [e]))
      (fun hmark => (spec_pure (Sum.inr items)).mono ?_)
      fun _ => ((spec_parseExpr hf).bind fun e => spec_pure (Sum.inl (items ++ [e]))).mono ?_)
    (spec_pure (Sum.inr items))) ?_ ?_ items
  · rintro res ts r ⟨rfl, rfl⟩ hhead
    exact .inl ⟨hhead.trans hmark, rfl, rfl⟩
  · rintro res ts r ⟨e, mid, he, rfl, rfl⟩ _
    exact .inr ⟨e, he, rfl⟩
  · rintro items items' ts r (⟨l, mid, rfl, ⟨hhead, h, rfl⟩ | ⟨_, _, h⟩⟩ | ⟨_, h, rfl⟩)
    · cases h
      obtain ⟨l', rest, rfl⟩ := cons_of_mark hhead (by decide)
      exact ⟨rfl, .moreTrailing⟩
    · cases h
    · cases h
      exact ⟨rfl, .moreNil⟩
  · rintro items items' ts mid (⟨l, _, rfl, ⟨_, h, _⟩ | ⟨e, he, hitems⟩⟩ | ⟨_, h, _⟩)
    · cases h
    · cases hitems
      exact ⟨e, rfl, fun _ _ => .moreCons he⟩
    · cases h

theorem spec_parseListLiteral : Spec (parseListLiteral sub ctx) fun e ts r =>
    headMark ts = some .lBracket → Derives ctx.depth ctx.inFn (.primary e) ts r := by
  refine (spec_take (spec_optional (by decide) (spec_pure (Expr.list []))
    ((spec_parseExpr hf).bind fun e => (spec_moreItems h hf [e]).bind fun items =>
      (spec_expect (by decide)).bind fun _ => spec_currentLine.bind fun line =>
        spec_checkExprDepth (Expr.list items) line))).mono ?_
  intro e ts r hrun hhead
  obtain ⟨l, rest, rfl⟩ := cons_of_mark hhead (by decide)
  rcases hrun _ _ rfl with ⟨l', _, rfl, rfl, rfl⟩ | ⟨_, item, _, hitem, hrun⟩
  · exact .listNil
  · obtain ⟨items, _, ⟨more, rfl, hmore⟩, _, _, ⟨l', rfl⟩, _, _, ⟨_, rfl⟩, rfl, rfl⟩ := hrun
    exact .list hitem hmore

omit h in
theorem spec_parsePair : Spec (parsePair sub ctx) fun pair =>
    Derives ctx.depth ctx.inFn (.pair pair) := by
  refine ((spec_parseExpr hf).bind fun k => (spec_expect (by decide)).bind fun _ =>
    (spec_parseExpr hf).bind fun v => spec_pure (k, v)).mono ?_
  rintro pair ts r ⟨k, _, hk, _, _, ⟨l, rfl⟩, v, _, hv, rfl, rfl⟩
  exact .pair hk hv

/-- The pairs of a dict literal after the first one. -/
theorem spec_morePairs (pairs : List (Expr × Expr)) :
    Spec (tokenLoop (morePairs sub ctx) pairs)
      (Adds (fun more => Derives ctx.depth ctx.inFn (.morePairs more)) pairs) := by
  refine spec_collect (takesRounds_morePairs h) (fun pairs => spec_optional (by decide)
    (spec_onMark fun mark => spec_ite
      (G := fun res ts r => headMark ts = mark → (headMark ts = some .rBrace ∧
        res = Sum.inr pairs ∧ r = ts) ∨ ∃ p, Derives ctx.depth ctx.inFn (.pair p) ts r ∧
          res = Sum.inl (pairs ++ [p]))
      (fun hmark => (spec_pure (Sum.inr pairs)).mono ?_)
      fun _ => ((spec_parsePair hf).bind fun p => spec_pure (Sum.inl (pairs ++ [p]))).mono ?_)
    (spec_pure (Sum.inr pairs))) ?_ ?_ pairs
  · rintro res ts r ⟨rfl, rfl⟩ hhead
    exact .inl ⟨hhead.trans hmark, rfl, rfl⟩
  · rintro res ts r ⟨p, mid, hp, rfl, rfl⟩ _
    exact .inr ⟨p, hp, rfl⟩
  · rintro pairs pairs' ts r (⟨l, mid, rfl, ⟨hhead, h, rfl⟩ | ⟨_, _, h⟩⟩ | ⟨_, h, rfl⟩)
    · cases h
      obtain ⟨l', rest, rfl⟩ := cons_of_mark hhead (by decide)
      exact ⟨rfl, .pairsTrailing⟩
    · cases h
    · cases h
      exact ⟨rfl, .pairsNil⟩
  · rintro pairs pairs' ts mid (⟨l, _, rfl, ⟨_, h, _⟩ | ⟨p, hp, hpairs⟩⟩ | ⟨_, h, _⟩)
    · cases h
    · cases hpairs
      exact ⟨p, rfl, fun _ _ => .pairsCons hp⟩
    · cases h

theorem spec_parseDictLiteral : Spec (parseDictLiteral sub ctx) fun e ts r =>
    headMark ts = some .lBrace → Derives ctx.depth ctx.inFn (.primary e) ts r := by
  refine (spec_take (spec_optional (by decide) (spec_pure (Expr.dict []))
    ((spec_parsePair hf).bind fun p => (spec_morePairs h hf [p]).bind fun pairs =>
      (spec_expect (by decide)).bind fun _ => spec_currentLine.bind fun line =>
        spec_checkExprDepth (Expr.dict pairs) line))).mono ?_
  intro e ts r hrun hhead
  obtain ⟨l, rest, rfl⟩ := cons_of_mark hhead (by decide)
  rcases hrun _ _ rfl with ⟨l', _, rfl, rfl, rfl⟩ | ⟨_, pair, _, hpair, hrun⟩
  · exact .dictNil
  · obtain ⟨pairs, _, ⟨more, rfl, hmore⟩, _, _, ⟨l', rfl⟩, _, _, ⟨_, rfl⟩, rfl, rfl⟩ := hrun
    exact .dict hpair hmore

/-! ## F-strings -/

omit h hf in
theorem noNewline_closePart {line : Nat} {tokens : List Spanned} (h : NoNewline tokens) :
    NoNewline (closePart line tokens) := by
  intro t ht
  rcases List.mem_append.1 ht with ht | ht
  · exact h t ht
  · rw [List.mem_singleton.1 ht]
    exact fun hnl => by cases hnl

omit h hf in
theorem oneLineParts_closePart {line : Nat} {tokens : List Spanned} (h : OneLineParts tokens) :
    OneLineParts (closePart line tokens) := by
  obtain ⟨hline, hparts⟩ := h
  have hmem : ∀ t ∈ closePart line tokens, ∀ parts, t.token = .fStr parts → t ∈ tokens := by
    intro t ht parts hfStr
    rcases List.mem_append.1 ht with ht | ht
    · exact ht
    · rw [List.mem_singleton.1 ht] at hfStr
      cases hfStr
  exact ⟨fun t ht parts hfStr => hline t (hmem t ht parts hfStr) parts hfStr,
    fun t ht parts hfStr => hparts t (hmem t ht parts hfStr) parts hfStr⟩

omit h hf in
/-- A part that stands on one line leaves no errors in the list that is dropped. -/
theorem spec_inFString {m : P α} (hm : Spec m G) (hstill : Still m) (line : Nat)
    (tokens : List Spanned) :
    Spec (inFString line tokens m) fun a ts r => r = ts ∧
      (NoNewline tokens → OneLineParts tokens →
        ∃ r', G a (closePart line tokens) r' ∧ headMark r' = some .eof) := by
  refine ⟨framed_inFString hm.framed line tokens, fun s a t hrun _ _ => ?_⟩
  rcases hpart : m.run ⟨closePart line tokens, []⟩ with ⟨e | b, u⟩
  · cases e <;> simp only [inFString, hpart] at hrun <;> cases hrun
  · simp only [inFString, hpart] at hrun
    split at hrun
    case isTrue heof =>
      cases hrun
      refine ⟨rfl, fun hline hparts => ⟨u.rest, ?_, heof⟩⟩
      have hnone := hstill ⟨closePart line tokens, []⟩
      rw [hpart] at hnone
      exact hm.finds _ _ _ hpart (hnone.2 (noNewline_closePart hline)) (oneLineParts_closePart hparts)
    case isFalse => cases hrun

omit h in
theorem spec_parseParts (hs : ctx.depth < maxAstDepth → sub.Stills (ctx.depth + 1)) (line : Nat) :
    ∀ parts, Spec (parseParts sub ctx line parts) fun result ts r => r = ts ∧
      ((∀ tokens, FStrPart.expr tokens ∈ parts → NoNewline tokens ∧ OneLineParts tokens) →
        Derives ctx.depth ctx.inFn (.parts line parts result) [] []) := by
  intro parts
  induction parts with
  | nil =>
    refine (spec_pure []).mono ?_
    rintro result ts r ⟨rfl, rfl⟩
    exact ⟨rfl, fun _ => .partsNil⟩
  | cons part parts ih =>
    cases part with
    | literal text =>
      refine (ih.bind fun rest => spec_pure (FStrExprPart.literal text :: rest)).mono ?_
      rintro result ts r ⟨rest, _, ⟨rfl, hrest⟩, rfl, rfl⟩
      exact ⟨rfl, fun hparts =>
        .partsLiteral (hrest fun tokens hmem => hparts tokens (List.mem_cons_of_mem _ hmem))⟩
    | expr tokens =>
      have hpart : Spec (parseExpr sub { ctx with fnDepth := 0 }) _ :=
        @spec_parseExpr sub { ctx with fnDepth := 0 } hf
      have hstill : Still (parseExpr sub { ctx with fnDepth := 0 }) :=
        @still_parseExpr sub { ctx with fnDepth := 0 } hs
      refine ((spec_inFString hpart hstill line tokens).bind fun e => ih.bind fun rest =>
        spec_pure (FStrExprPart.expr e :: rest)).mono ?_
      rintro result ts r ⟨e, _, ⟨rfl, he⟩, rest, _, ⟨rfl, hrest⟩, rfl, rfl⟩
      refine ⟨rfl, fun hparts => ?_⟩
      obtain ⟨hline, hone⟩ := hparts tokens List.mem_cons_self
      obtain ⟨r', he, heof⟩ := he hline hone
      exact .partsExpr he heof
        (hrest fun tokens hmem => hparts tokens (List.mem_cons_of_mem _ hmem))

/-! ## Blocks and lambdas -/

omit h in
theorem spec_parseStmt (top : Bool) : Spec (parseStmt sub ctx top) fun s =>
    Derives ctx.depth ctx.inFn (.stmt top s) := by
  refine ((spec_withParseDepth fun hd => (hf hd).parseStmtInner top _ rfl).bind fun s =>
    spec_checkStmtDepth s).mono ?_
  rintro s ts r ⟨_, _, ⟨hd, hs⟩, rfl, rfl⟩
  exact .stmt hd hs

omit h hf in
/-- A line that is dropped leaves an error. -/
theorem spec_dropped {reject : P ParseError} (hreject : Framed reject) (stmts : Block) :
    Spec (reject >>= fun e => pushError e >>= fun _ => skipNewlines >>= fun _ =>
      pure (.inl stmts) : P (Block ⊕ Block)) fun _ _ _ => False := by
  refine ((spec_true hreject).bind fun e => (spec_pushError e).bind fun _ =>
    spec_skipNewlines.bind fun _ => spec_pure (Sum.inl stmts)).mono ?_
  rintro _ _ _ ⟨_, _, _, _, _, h, _⟩
  exact h

/-- A round at the end of the block, or one more statement. -/
def BlockRound (ctx : Ctx) (terminators : List Mark) (stmts : Block) (res : Block ⊕ Block)
    (ts r : List Spanned) : Prop :=
  (res = .inr stmts ∧ r = ts ∧
    (headMark ts = some .eof ∨ ∃ m ∈ terminators, headMark ts = some m)) ∨
  ∃ s mid, res = .inl (stmts ++ [s]) ∧
    Derives ctx.depth ctx.inFn (.stmt false s) ts mid ∧ r = dropNewlines mid

omit h in
theorem spec_blockStep (terminators : List Mark) (stmts : Block) :
    Spec (blockStep sub ctx terminators stmts) (BlockRound ctx terminators stmts) := by
  refine spec_onMark fun mark => spec_ite (fun hend => ?_) fun _ => spec_ite (fun _ => ?_)
    fun _ => spec_ite (fun _ => ?_) fun _ => ?_
  · refine (spec_pure (Sum.inr stmts)).mono ?_
    rintro res ts r ⟨rfl, rfl⟩ rfl
    exact .inl ⟨rfl, rfl, hend⟩
  · exact (spec_dropped framed_rejectNonTopLevelImport stmts).mono fun _ _ _ h => h.elim
  · exact (spec_dropped framed_rejectNonFunctionReturn stmts).mono fun _ _ _ h => h.elim
  · refine ((spec_parseStmt hf false).bind fun s => spec_skipNewlines.bind fun _ =>
      spec_pure (Sum.inl (stmts ++ [s]))).mono ?_
    rintro res ts r ⟨s, mid, hs, _, _, rfl, rfl, rfl⟩ _
    exact .inr ⟨s, mid, rfl, hs, rfl⟩

theorem spec_parseBlock (terminators : List Mark) :
    Spec (parseBlock sub ctx terminators) fun body =>
      Derives ctx.depth ctx.inFn (.block terminators body) := by
  refine (spec_collect (takesRounds_blockStep h terminators)
    (G := fun body => Derives ctx.depth ctx.inFn (.block terminators body))
    (spec_blockStep hf terminators) ?_ ?_ []).mono ?_
  · rintro stmts stmts' ts r (⟨hres, rfl, hend⟩ | ⟨_, _, hres, _⟩)
    · cases hres
      exact ⟨rfl, .blockNil hend⟩
    · cases hres
  · rintro stmts stmts' ts mid (⟨hres, _⟩ | ⟨s, _, hres, hs, rfl⟩)
    · cases hres
    · cases hres
      exact ⟨s, rfl, fun _ _ => .blockCons hs⟩
  · rintro body ts r ⟨_, rfl, hbody⟩
    exact hbody

/-- The body of a function. -/
theorem spec_functionBody :
    Spec (withFnContext ctx fun ctx => parseBlock sub ctx [.«end»]) fun body =>
      Derives ctx.depth true (.block [.«end»] body) := by
  have hbody := @spec_parseBlock sub { ctx with fnDepth := ctx.fnDepth + 1 } h hf [.«end»]
  have hin : Ctx.inFn { ctx with fnDepth := ctx.fnDepth + 1 } = true :=
    decide_eq_true (Nat.succ_pos _)
  rwa [hin] at hbody

omit h in
/-- The body of a lambda on one line, after `return` or without it. -/
theorem spec_lambdaBody (params : List String) (line bodyLine : Nat) :
    Spec (parseExpr sub ctx >>= fun e => expect .«end» >>= fun _ =>
      checkExprDepth (.lambda params [.«return» e bodyLine]) line) fun lam ts r =>
        ∃ e l, lam = .lambda params [.«return» e bodyLine] ∧
          Derives ctx.depth ctx.inFn (.expr e) ts (tok .«end» l :: r) := by
  refine ((spec_parseExpr hf).bind fun e => (spec_expect (by decide)).bind fun _ =>
    spec_checkExprDepth (Expr.lambda params [.«return» e bodyLine]) line).mono ?_
  rintro lam ts r ⟨e, _, he, _, _, ⟨l, rfl⟩, rfl, rfl⟩
  exact ⟨e, l, rfl, he⟩

theorem spec_parseAnonymousFn : Spec (parseAnonymousFn sub ctx) fun e ts r =>
    headMark ts = some .fn → Derives ctx.depth ctx.inFn (.primary e) ts r := by
  refine (spec_open fun line => (spec_expect (by decide)).bind fun _ =>
    (spec_parseParams ctx.depth ctx.inFn).bind fun params => (spec_expect (by decide)).bind fun _ =>
      spec_optional (by decide)
        ((spec_functionBody h hf).bind fun body => (spec_expect (by decide)).bind fun _ =>
          spec_checkExprDepth (Expr.lambda params body) line)
        (spec_currentLine.bind fun bodyLine =>
          spec_optional (by decide) (spec_lambdaBody hf params line bodyLine)
            (spec_lambdaBody hf params line bodyLine))).mono ?_
  intro lam ts r hrun hhead
  obtain ⟨l, rest, rfl⟩ := cons_of_mark hhead (by decide)
  obtain ⟨_, _, ⟨l₁, rfl⟩, params, _, hparams, _, _, ⟨l₂, rfl⟩, hrun⟩ := hrun _ _ rfl
  rcases hrun with ⟨l₃, mid, rfl, body, _, hbody, _, _, ⟨l₄, rfl⟩, rfl, rfl⟩ | ⟨_, _, _, ⟨rfl, rfl⟩, hrun⟩
  · exact .lambdaBlock hparams hbody
  · rcases hrun with ⟨l₃, mid, rfl, e, l₄, rfl, he⟩ | ⟨hreturn, e, l₄, rfl, he⟩
    · exact .lambdaExpr hparams he
    · refine .lambdaExpr hparams (?_ : Derives _ _ _ _ (tok .«end» l₄ :: r))
      rw [afterReturn, if_neg hreturn]
      exact he

/-! ## Primaries, calls and operators -/

omit h hf in
/-- A token that is an expression. -/
theorem spec_leaf {d line : Nat} {f : Bool} {e : Expr} {t : Token} (ht : t ≠ .mark .eof)
    (he : ∀ l r, Derives d f (.primary e) (.mk t l :: r) r) :
    Spec (advance >>= fun _ => pure e) fun e' ts r =>
      headToken ts = t → headLine ts = line → Derives d f (.primary e') ts r := by
  refine (spec_take (spec_pure e)).mono ?_
  intro e' ts r hrun hhead _
  obtain ⟨l, rest, rfl⟩ := cons_of_headToken hhead ht
  obtain ⟨rfl, rfl⟩ := hrun _ _ rfl
  exact he l _

omit h in
theorem spec_parseFstr (hs : ctx.depth < maxAstDepth → sub.Stills (ctx.depth + 1))
    (parts : List FStrPart) (line : Nat) :
    Spec (advance >>= fun _ => parseFstr sub ctx parts line) fun e ts r =>
      headToken ts = .fStr parts → headLine ts = line →
        Derives ctx.depth ctx.inFn (.primary e) ts r := by
  refine (spec_take ((spec_parseParts hf hs line parts).bind fun result =>
    spec_checkExprDepth (Expr.fStr result) line)).oneLine.mono ?_
  rintro e ts r ⟨⟨hline, hone⟩, hrun⟩ hhead rfl
  obtain ⟨l, rest, rfl⟩ := cons_of_headToken hhead (by simp)
  have hfirst : Spanned.mk (.fStr parts) l ∈ Spanned.mk (.fStr parts) l :: rest :=
    List.mem_cons_self
  obtain ⟨result, _, ⟨rfl, hparts⟩, rfl, rfl⟩ := hrun _ _ rfl
  have hresult := hparts fun tokens hmem =>
    ⟨hline _ hfirst parts rfl tokens hmem, hone _ hfirst parts rfl tokens hmem⟩
  exact .fStr hresult

theorem spec_print (line : Nat) :
    Spec (advance >>= fun _ => expect .lParen >>= fun _ => parseArgs sub ctx >>= fun args =>
      expect .rParen >>= fun _ => checkExprDepth (.call (.ident "print") args) line)
      fun e ts r => headToken ts = .mark .print → headLine ts = line →
        Derives ctx.depth ctx.inFn (.primary e) ts r := by
  refine (spec_take ((spec_expect (by decide)).bind fun _ => (spec_parseArgs h hf).bind fun args =>
    (spec_expect (by decide)).bind fun _ =>
      spec_checkExprDepth (Expr.call (.ident "print") args) line)).mono ?_
  intro e ts r hrun hhead _
  obtain ⟨l, rest, rfl⟩ := cons_of_headToken hhead (by simp)
  obtain ⟨_, _, ⟨l', rfl⟩, args, _, hargs, _, _, ⟨l'', rfl⟩, rfl, rfl⟩ := hrun _ _ rfl
  exact .print hargs

omit h in
theorem spec_paren (line : Nat) :
    Spec (advance >>= fun _ => parseExpr sub ctx >>= fun e => expect .rParen >>= fun _ => pure e)
      fun e ts r => headToken ts = .mark .lParen → headLine ts = line →
        Derives ctx.depth ctx.inFn (.primary e) ts r := by
  refine (spec_take ((spec_parseExpr hf).bind fun e => (spec_expect (by decide)).bind fun _ =>
    spec_pure e)).mono ?_
  intro e ts r hrun hhead _
  obtain ⟨l, rest, rfl⟩ := cons_of_headToken hhead (by simp)
  obtain ⟨e', _, he, _, _, ⟨l', rfl⟩, rfl, rfl⟩ := hrun _ _ rfl
  exact .paren he

theorem spec_parsePrimary (hs : ctx.depth < maxAstDepth → sub.Stills (ctx.depth + 1)) :
    Spec (parsePrimary sub ctx) fun e => Derives ctx.depth ctx.inFn (.primary e) := by
  refine spec_onLine fun line => spec_onToken fun t => ?_
  split
  · exact spec_leaf (by simp) fun _ _ => .int
  · exact spec_leaf (by simp) fun _ _ => .float
  · exact spec_leaf (by simp) fun _ _ => .str
  · exact spec_parseFstr hf hs _ line
  · exact spec_leaf (by simp) fun _ _ => .boolTrue
  · exact spec_leaf (by simp) fun _ _ => .boolFalse
  · exact spec_leaf (by simp) fun _ _ => .null
  · exact spec_leaf (by simp) fun _ _ => .ident
  · exact spec_print h hf line
  · exact spec_paren hf line
  · exact (spec_parseListLiteral h hf).mono fun _ _ _ he hhead _ =>
      he (Token.mark?_eq_some.2 hhead)
  · exact (spec_parseDictLiteral h hf).mono fun _ _ _ he hhead _ =>
      he (Token.mark?_eq_some.2 hhead)
  · exact (spec_parseAnonymousFn h hf).mono fun _ _ _ he hhead _ =>
      he (Token.mark?_eq_some.2 hhead)
  · exact (spec_take (spec_fail _ _)).mono fun _ ts _ hrun hhead _ => by
      obtain ⟨l, rest, rfl⟩ := cons_of_headToken hhead (by simp)
      exact (hrun _ _ rfl).elim
  · exact (spec_take (spec_fail _ _)).mono fun _ ts _ hrun hhead _ => by
      obtain ⟨l, rest, rfl⟩ := cons_of_headToken hhead (by simp)
      exact (hrun _ _ rfl).elim
  · exact (spec_fail _ _).mono fun _ _ _ h => h.elim

/-- A round of the calls after an expression: what was derived as a call goes on. -/
def CallRound (ctx : Ctx) (e : Expr) (res : Expr ⊕ Expr) (ts r : List Spanned) : Prop :=
  match res with
  | .inl e' => ∀ ts₀, Derives ctx.depth ctx.inFn (.call e) ts₀ ts →
      Derives ctx.depth ctx.inFn (.call e') ts₀ r
  | .inr e' => e' = e ∧ r = ts

theorem spec_callStep (e : Expr) : Spec (callStep sub ctx e) (CallRound ctx e) := by
  refine spec_onLine fun line => spec_onMark fun mark => ?_
  split
  · refine (spec_take ((spec_parseArgs h hf).bind fun args => (spec_expect (by decide)).bind fun _ =>
      (spec_checkExprDepth (Expr.call e args) line).bind fun e' => spec_pure (Sum.inl e'))).mono ?_
    intro res ts r hrun hhead _
    obtain ⟨l, rest, rfl⟩ := cons_of_mark hhead (by decide)
    obtain ⟨args, _, hargs, _, _, ⟨l', rfl⟩, _, _, ⟨rfl, rfl⟩, rfl, rfl⟩ := hrun _ _ rfl
    exact fun ts₀ hcallee => .callArgs hcallee hargs
  · refine (spec_take ((spec_parseExpr hf).bind fun idx => (spec_expect (by decide)).bind fun _ =>
      (spec_checkExprDepth (Expr.index e idx) line).bind fun e' => spec_pure (Sum.inl e'))).mono ?_
    intro res ts r hrun hhead _
    obtain ⟨l, rest, rfl⟩ := cons_of_mark hhead (by decide)
    obtain ⟨idx, _, hidx, _, _, ⟨l', rfl⟩, _, _, ⟨rfl, rfl⟩, rfl, rfl⟩ := hrun _ _ rfl
    exact fun ts₀ hobject => .callIndex hobject hidx
  · refine (spec_pure (Sum.inr e)).mono ?_
    rintro res ts r ⟨rfl, rfl⟩ _ _
    exact ⟨rfl, rfl⟩

theorem spec_parseCall (hs : ctx.depth < maxAstDepth → sub.Stills (ctx.depth + 1)) :
    Spec (parseCall sub ctx) fun e => Derives ctx.depth ctx.inFn (.call e) := by
  have hloop := spec_loop (takesRounds_callStep h) (S := CallRound ctx)
    (R := fun e e' ts r => ∀ ts₀, Derives ctx.depth ctx.inFn (.call e) ts₀ ts →
      Derives ctx.depth ctx.inFn (.call e') ts₀ r) (spec_callStep h hf)
    (fun e e' ts r hround ts₀ he => by
      obtain ⟨rfl, rfl⟩ := hround
      exact he)
    (fun e e' e'' ts mid r hround hrest ts₀ he => hrest ts₀ (hround ts₀ he))
  refine ((spec_parsePrimary h hf hs).bind hloop).mono ?_
  rintro e ts r ⟨_, _, hprimary, hcalls⟩
  exact hcalls ts (.callPrimary hprimary)

omit h in
theorem spec_unaryOperation {op : UnaryOpKind} {m : Mark} (hop : unaryOps m = some op)
    (hm : m ≠ .eof) : Spec (unaryOperation sub ctx op) fun e ts r =>
      headMark ts = some m → Derives ctx.depth ctx.inFn (.unary e) ts r := by
  refine (spec_open fun line => (spec_withParseDepth fun hd => (hf hd).parseUnary _ rfl).bind
    fun e => spec_checkExprDepth (Expr.unaryOp op e) line).mono ?_
  intro e ts r hrun hhead
  obtain ⟨l, rest, rfl⟩ := cons_of_mark hhead hm
  obtain ⟨e', _, ⟨hd, he⟩, rfl, rfl⟩ := hrun _ _ rfl
  exact .unaryOp hd hop he

theorem spec_parseUnary (hs : ctx.depth < maxAstDepth → sub.Stills (ctx.depth + 1)) :
    Spec (parseUnary sub ctx) fun e => Derives ctx.depth ctx.inFn (.unary e) := by
  refine spec_onMark fun mark => ?_
  split
  · exact spec_unaryOperation hf rfl (by decide)
  · exact spec_unaryOperation hf rfl (by decide)
  · exact (spec_parseCall h hf hs).mono fun _ _ _ he _ => .unaryCall he

omit h hf in
/-- The operators of one level: what was derived on the left goes on. -/
theorem spec_leftAssoc {d : Nat} {f : Bool} (p : Prec) {operand : P Expr}
    (hoperand : Spec operand fun e => Derives d f (p.operand e)) :
    Spec (leftAssoc p.ops operand) fun e => Derives d f (.binary p e) := by
  have hstep : ∀ left, Spec (operandStep p.ops operand left) fun res ts r =>
      match res with
      | .inl e => ∀ ts₀, Derives d f (.binary p left) ts₀ ts → Derives d f (.binary p e) ts₀ r
      | .inr e => e = left ∧ r = ts := by
    intro left
    refine spec_onMark fun mark => ?_
    split
    · next op hbind =>
      obtain ⟨m, rfl, hop⟩ := Option.bind_eq_some_iff.1 hbind
      refine (spec_take (hoperand.bind fun right => spec_currentLine.bind fun line =>
        (spec_checkExprDepth (Expr.binOp left op right) line).bind fun e =>
          spec_pure (Sum.inl e))).mono ?_
      intro res ts r hrun hhead
      obtain ⟨l, rest, rfl⟩ := cons_of_mark hhead fun heof => by
        rw [heof, ops_eof] at hop
        cases hop
      obtain ⟨right, _, hright, _, _, ⟨_, rfl⟩, _, _, ⟨rfl, rfl⟩, rfl, rfl⟩ := hrun _ _ rfl
      exact fun ts₀ hleft => .operation hop hleft hright
    · refine (spec_pure (Sum.inr left)).mono ?_
      rintro res ts r ⟨rfl, rfl⟩ _
      exact ⟨rfl, rfl⟩
  have hloop := spec_loop (takesRounds_operandStep (ops_eof p) hoperand.framed)
    (R := fun left e ts r => ∀ ts₀, Derives d f (.binary p left) ts₀ ts →
      Derives d f (.binary p e) ts₀ r) hstep
    (fun left e ts r hround ts₀ he => by
      obtain ⟨rfl, rfl⟩ := hround
      exact he)
    (fun left e e' ts mid r hround hrest ts₀ he => hrest ts₀ (hround ts₀ he))
  refine (hoperand.bind hloop).mono ?_
  rintro e ts r ⟨_, _, hleft, hrest⟩
  exact hrest ts (.operand hleft)

theorem spec_parseOr (hs : ctx.depth < maxAstDepth → sub.Stills (ctx.depth + 1)) :
    Spec (parseOr sub ctx) fun e => Derives ctx.depth ctx.inFn (.binary .or e) :=
  spec_leftAssoc .or <| spec_leftAssoc .and <| spec_leftAssoc .comparison <|
    spec_leftAssoc .addSub <| spec_leftAssoc .mulDiv <| spec_parseUnary h hf hs

/-! ## Statements -/

omit h hf in
/-- A block that ends with a keyword does not begin at the end. -/
theorem block_notEof {d : Nat} {f : Bool} {terminators : List Mark} {body : Block}
    {ts r : List Spanned} (hbody : Derives d f (.block terminators body) ts r)
    (hr : headMark r ≠ some .eof) : headMark ts ≠ some .eof := by
  cases hbody with
  | blockNil _ => exact hr
  | blockCons hs _ => exact fun heof => (beginsStmt_mark (derives_begins hs) heof).1 rfl

omit h hf in
theorem dropNewlines_eof {ts : List Spanned} (heof : headMark ts = some .eof) :
    dropNewlines ts = ts := by
  cases ts with
  | nil => rfl
  | cons t ts =>
    exact List.dropWhile_cons_of_neg (by rw [show t.token.mark? = _ from heof]; decide)

omit h hf in
/-- The header of a block, if what follows it does not begin at the end. -/
theorem spec_header {f : Unit → P α} (hf : Spec (f ()) G)
    (hend : ∀ a ts r, G a ts r → headMark ts ≠ some .eof) :
    Spec (expectNewline >>= fun _ => skipNewlines >>= f) fun a ts r =>
      ∃ l mid, ts = tok .newline l :: mid ∧ G a (dropNewlines mid) r := by
  refine (spec_expectNewline.bind fun _ => spec_skipNewlines.bind fun _ => hf).mono ?_
  rintro a ts r ⟨_, _, ⟨l, rfl⟩ | ⟨heof, rfl⟩, _, _, rfl, ha⟩
  · exact ⟨l, _, rfl, ha⟩
  · exact absurd (by rwa [dropNewlines_eof heof]) (hend _ _ _ ha)

omit h hf in
/-- The line of `end` and what follows it. -/
theorem spec_footer (a : α) :
    Spec (expect .«end» >>= fun _ => expectNewlineOrEof >>= fun _ => pure a) fun a' ts r =>
      a' = a ∧ ∃ l mid, ts = tok .«end» l :: mid ∧ LineEnd mid r := by
  refine ((spec_expect (by decide)).bind fun _ => spec_expectNewlineOrEof.bind fun _ =>
    spec_pure a).mono ?_
  rintro a' ts r ⟨_, _, ⟨l, rfl⟩, _, _, hend, rfl, rfl⟩
  exact ⟨rfl, l, _, rfl, hend⟩

/-- A block of statements up to the `end` of its statement. -/
def Closed (d : Nat) (f : Bool) (g : Block → α) (a : α) (ts r : List Spanned) : Prop :=
  ∃ body l mid, a = g body ∧ Derives d f (.block [.«end»] body) ts (tok .«end» l :: mid) ∧
    LineEnd mid r

omit h hf in
theorem spec_closed {d : Nat} {f : Bool} {m : P Block}
    (hm : Spec m fun body => Derives d f (.block [.«end»] body)) (g : Block → α) :
    Spec (m >>= fun body => expect .«end» >>= fun _ => expectNewlineOrEof >>= fun _ =>
      pure (g body)) (Closed d f g) := by
  refine (hm.bind fun body => spec_footer (g body)).mono ?_
  rintro a ts r ⟨body, _, hbody, rfl, l, mid, rfl, hend⟩
  exact ⟨body, l, mid, rfl, hbody, hend⟩

omit h hf in
theorem closed_notEof {d : Nat} {f : Bool} {g : Block → α} {a : α} {ts r : List Spanned}
    (hclosed : Closed d f g a ts r) : headMark ts ≠ some .eof := by
  obtain ⟨body, l, mid, -, hbody, -⟩ := hclosed
  exact block_notEof hbody nofun

omit h in
theorem spec_parseLet (top : Bool) : Spec (parseLet sub ctx) fun s ts r =>
    headToken ts = .mark .«let» → Derives ctx.depth ctx.inFn (.form top s) ts r := by
  refine (spec_open fun line => (spec_expectName .letName).bind fun name =>
    (spec_expect (by decide)).bind fun _ => (spec_parseExpr hf).bind fun e =>
      spec_expectNewlineOrEof.bind fun _ => spec_pure (Stmt.«let» name e line)).mono ?_
  intro s ts r hrun hhead
  obtain ⟨l, rest, rfl⟩ := cons_of_headToken hhead (by simp)
  obtain ⟨name, _, ⟨l₁, rfl⟩, _, _, ⟨l₂, rfl⟩, e, _, he, _, _, hend, rfl, rfl⟩ := hrun _ _ rfl
  exact .«let» he hend

omit h in
theorem spec_parseReturn (top : Bool) (hfn : 0 < ctx.fnDepth) :
    Spec (parseReturn sub ctx) fun s ts r =>
      headToken ts = .mark .«return» → Derives ctx.depth ctx.inFn (.form top s) ts r := by
  refine (spec_open fun line => (spec_parseExpr hf).bind fun e =>
    spec_expectNewlineOrEof.bind fun _ => spec_pure (Stmt.«return» e line)).mono ?_
  intro s ts r hrun hhead
  obtain ⟨l, rest, rfl⟩ := cons_of_headToken hhead (by simp)
  obtain ⟨e, _, he, _, _, hend, rfl, rfl⟩ := hrun _ _ rfl
  rw [show ctx.inFn = true from decide_eq_true hfn] at he ⊢
  exact .«return» he hend

/-- What follows the first body of `if`. -/
theorem spec_parseBranches : Spec (parseBranches sub ctx) fun elseBody =>
    Derives ctx.depth ctx.inFn (.branches elseBody) := by
  refine spec_onMark fun mark => ?_
  split
  · refine ((spec_withParseDepth fun hd => (hf hd).parseIf _ rfl).bind fun s =>
      spec_pure [s]).mono ?_
    rintro body ts r ⟨s, _, ⟨hd, hs⟩, rfl, rfl⟩ hhead
    obtain ⟨l, rest, rfl⟩ := cons_of_mark hhead (by decide)
    exact .branchElif hd (hs (.inr rfl))
  · refine (spec_take (spec_header (spec_closed (spec_parseBlock h hf [.«end»]) id)
      fun _ _ _ => closed_notEof)).mono ?_
    intro body ts r hrun hhead
    obtain ⟨l, rest, rfl⟩ := cons_of_mark hhead (by decide)
    obtain ⟨l₁, mid, rfl, _, l₂, mid', rfl, hbody, hend⟩ := hrun _ _ rfl
    exact .branchElse hbody hend
  · refine (spec_footer []).mono ?_
    rintro body ts r ⟨rfl, l, mid, rfl, hend⟩ _
    exact .branchNone hend

omit h hf in
theorem branches_notEof {d : Nat} {f : Bool} {elseBody : Block} {ts r : List Spanned}
    (hbranches : Derives d f (.branches elseBody) ts r) : headMark ts ≠ some .eof := by
  cases hbranches <;> exact nofun

theorem spec_parseIf : Spec (parseIf sub ctx) fun s ts r =>
    headMark ts = some .«if» ∨ headMark ts = some .elif →
      Derives ctx.depth ctx.inFn (.conditional s) ts r := by
  have hbodies : ∀ c line, Spec (parseBlock sub ctx [.«else», .elif, .«end»] >>= fun thenBody =>
      parseBranches sub ctx >>= fun elseBody => pure (.«if» c thenBody elseBody line) : P Stmt)
      fun s ts r => ∃ thenBody elseBody mid, s = .«if» c thenBody elseBody line ∧
        Derives ctx.depth ctx.inFn (.block [.«else», .elif, .«end»] thenBody) ts mid ∧
        Derives ctx.depth ctx.inFn (.branches elseBody) mid r := by
    intro c line
    refine ((spec_parseBlock h hf _).bind fun thenBody => (spec_parseBranches h hf).bind
      fun elseBody => spec_pure (Stmt.«if» c thenBody elseBody line)).mono ?_
    rintro s ts r ⟨thenBody, mid, hthen, elseBody, _, helse, rfl, rfl⟩
    exact ⟨thenBody, elseBody, mid, rfl, hthen, helse⟩
  refine (spec_open fun line => (spec_parseExpr hf).bind fun c => spec_header (hbodies c line)
    fun _ _ _ ⟨_, _, _, _, hthen, helse⟩ => block_notEof hthen (branches_notEof helse)).mono ?_
  intro s ts r hrun hhead
  have hkeyword : ∃ t l rest, (t = Mark.«if» ∨ t = Mark.elif) ∧ ts = tok t l :: rest := by
    rcases hhead with hhead | hhead
    · obtain ⟨l, rest, rfl⟩ := cons_of_mark hhead (by decide)
      exact ⟨_, l, rest, .inl rfl, rfl⟩
    · obtain ⟨l, rest, rfl⟩ := cons_of_mark hhead (by decide)
      exact ⟨_, l, rest, .inr rfl, rfl⟩
  obtain ⟨t, l, rest, ht, rfl⟩ := hkeyword
  obtain ⟨c, _, hc, l₁, mid, rfl, thenBody, elseBody, _, rfl, hthen, helse⟩ := hrun _ _ rfl
  exact .conditional ht hc hthen helse

theorem spec_parseWhile (top : Bool) : Spec (parseWhile sub ctx) fun s ts r =>
    headToken ts = .mark .«while» → Derives ctx.depth ctx.inFn (.form top s) ts r := by
  refine (spec_open fun line => (spec_parseExpr hf).bind fun c => spec_header
    (spec_closed (spec_parseBlock h hf [.«end»]) fun body => Stmt.«while» c body line)
    fun _ _ _ => closed_notEof).mono ?_
  intro s ts r hrun hhead
  obtain ⟨l, rest, rfl⟩ := cons_of_headToken hhead (by simp)
  obtain ⟨c, _, hc, l₁, mid, rfl, body, l₂, mid', rfl, hbody, hend⟩ := hrun _ _ rfl
  exact .«while» hc hbody hend

theorem spec_parseFor (top : Bool) : Spec (parseFor sub ctx) fun s ts r =>
    headToken ts = .mark .«for» → Derives ctx.depth ctx.inFn (.form top s) ts r := by
  refine (spec_open fun line => (spec_expectName .forVar).bind fun var =>
    (spec_expect (by decide)).bind fun _ => (spec_parseExpr hf).bind fun iter => spec_header
      (spec_closed (spec_parseBlock h hf [.«end»]) fun body => Stmt.«for» var iter body line)
      fun _ _ _ => closed_notEof).mono ?_
  intro s ts r hrun hhead
  obtain ⟨l, rest, rfl⟩ := cons_of_headToken hhead (by simp)
  obtain ⟨var, _, ⟨l₁, rfl⟩, _, _, ⟨l₂, rfl⟩, iter, _, hiter, l₃, mid, rfl, hrun⟩ := hrun _ _ rfl
  obtain ⟨body, l₄, mid', rfl, hbody, hend⟩ := hrun
  exact .«for» hiter hbody hend

theorem spec_parseFnDef (top : Bool) : Spec (parseFnDef sub ctx) fun s ts r =>
    headToken ts = .mark .fn → Derives ctx.depth ctx.inFn (.form top s) ts r := by
  refine (spec_open fun line => (spec_expectName .fnName).bind fun name =>
    (spec_expect (by decide)).bind fun _ => (spec_parseParams ctx.depth ctx.inFn).bind fun params =>
      (spec_expect (by decide)).bind fun _ => spec_header
        (spec_closed (spec_functionBody h hf) fun body => Stmt.fnDef name params body line)
        fun _ _ _ => closed_notEof).mono ?_
  intro s ts r hrun hhead
  obtain ⟨l, rest, rfl⟩ := cons_of_headToken hhead (by simp)
  obtain ⟨name, _, ⟨l₁, rfl⟩, _, _, ⟨l₂, rfl⟩, params, _, hparams, _, _, ⟨l₃, rfl⟩, hrun⟩ :=
    hrun _ _ rfl
  obtain ⟨l₄, mid, rfl, body, l₅, mid', rfl, hbody, hend⟩ := hrun
  exact .fnDef hparams hbody hend

omit h hf in
theorem spec_parseBreak (top : Bool) : Spec parseBreak fun s ts r =>
    headToken ts = .mark .«break» → Derives ctx.depth ctx.inFn (.form top s) ts r := by
  refine (spec_open fun line => spec_expectNewlineOrEof.bind fun _ =>
    spec_pure (Stmt.«break» line)).mono ?_
  intro s ts r hrun hhead
  obtain ⟨l, rest, rfl⟩ := cons_of_headToken hhead (by simp)
  obtain ⟨_, _, hend, rfl, rfl⟩ := hrun _ _ rfl
  exact .«break» hend

omit h hf in
theorem spec_parseContinue (top : Bool) : Spec parseContinue fun s ts r =>
    headToken ts = .mark .«continue» → Derives ctx.depth ctx.inFn (.form top s) ts r := by
  refine (spec_open fun line => spec_expectNewlineOrEof.bind fun _ =>
    spec_pure (Stmt.«continue» line)).mono ?_
  intro s ts r hrun hhead
  obtain ⟨l, rest, rfl⟩ := cons_of_headToken hhead (by simp)
  obtain ⟨_, _, hend, rfl, rfl⟩ := hrun _ _ rfl
  exact .«continue» hend

omit h hf in
theorem spec_parseImport : Spec parseImport fun s ts r =>
    headToken ts = .mark .«import» → Derives ctx.depth ctx.inFn (.form true s) ts r := by
  have hpath : ∀ (spanned : Spanned) {line : Nat} {m : P Stmt},
      (∀ path, spanned.token = .str path →
        m = expectNewlineOrEof >>= fun _ => pure (.«import» path line)) →
      ((∀ path, spanned.token ≠ .str path) → m = fail line .importPath) →
      Spec m fun s ts r => ∃ path, spanned.token = .str path ∧ s = .«import» path line ∧
        LineEnd ts r := by
    intro spanned line m hstr hother
    by_cases htoken : ∃ path, spanned.token = .str path
    · obtain ⟨path, htoken⟩ := htoken
      rw [hstr path htoken]
      refine (spec_expectNewlineOrEof.bind fun _ => spec_pure (Stmt.«import» path line)).mono ?_
      rintro s ts r ⟨_, _, hend, rfl, rfl⟩
      exact ⟨path, htoken, rfl, hend⟩
    · rw [hother fun path h => htoken ⟨path, h⟩]
      exact (spec_fail _ _).mono fun _ _ _ h => h.elim
  refine (spec_open fun line => spec_advanceSpanned.bind fun spanned =>
    hpath spanned (fun path h => by rw [h]) fun h => ?_).mono ?_
  · split
    · exact absurd ‹_› (h _)
    · rfl
  intro s ts r hrun hhead
  obtain ⟨l, rest, rfl⟩ := cons_of_headToken hhead (by simp)
  obtain ⟨spanned, _, ⟨rfl, rfl⟩, path, htoken, rfl, hend⟩ := hrun _ _ rfl
  obtain _ | ⟨⟨token, l₁⟩, rest⟩ := rest
  · cases htoken
  · have htoken : token = .str path := htoken
    subst htoken
    exact .«import» hend

theorem spec_parseTryCatch (top : Bool) : Spec (parseTryCatch sub ctx) fun s ts r =>
    headToken ts = .mark .«try» → Derives ctx.depth ctx.inFn (.form top s) ts r := by
  have hbody := fun line tryBody var => spec_closed (spec_parseBlock h hf [.«end»])
    fun body => Stmt.tryCatch tryBody var body line
  refine (spec_open fun line => spec_header ((spec_parseBlock h hf [.«catch»]).bind fun tryBody =>
    (spec_expect (by decide)).bind fun _ => (spec_expectName .catchVar).bind fun var =>
      spec_header (hbody line tryBody var) fun _ _ _ => closed_notEof) ?_).mono ?_
  · rintro s ts r ⟨tryBody, _, htry, _, _, ⟨l₂, rfl⟩, _⟩
    exact block_notEof htry nofun
  intro s ts r hrun hhead
  obtain ⟨l, rest, rfl⟩ := cons_of_headToken hhead (by simp)
  obtain ⟨l₁, mid, rfl, tryBody, _, htry, _, _, ⟨l₂, rfl⟩, var, _, ⟨l₃, rfl⟩, hrun⟩ := hrun _ _ rfl
  obtain ⟨l₄, mid', rfl, body, l₅, mid'', rfl, hbody, hend⟩ := hrun
  exact .tryCatch htry hbody hend

omit h in
theorem spec_parseAssign (top : Bool) : Spec (parseAssign sub ctx) fun s ts r =>
    ∀ name, headToken ts = .ident name → isAssignStmt ts = true →
      Derives ctx.depth ctx.inFn (.form top s) ts r := by
  refine (spec_currentLine.bind fun line => spec_takeName.bind fun name => spec_advance.bind
    fun _ => (spec_parseExpr hf).bind fun e => spec_expectNewlineOrEof.bind fun _ =>
      spec_pure (Stmt.assign name e line)).mono ?_
  rintro s ts r ⟨_, _, ⟨rfl, rfl⟩, name, _, hname, _, _, rfl, e, _, he, _, _, hend, rfl, rfl⟩ x hx ha
  obtain ⟨l, rfl⟩ := hname x hx
  rw [isAssignStmt_cons, decide_eq_true_eq] at ha
  obtain ⟨l₁, rest, rfl⟩ := cons_of_mark ha (by decide)
  exact .assign he hend

omit h in
theorem spec_parseIndexAssign (top : Bool) : Spec (parseIndexAssign sub ctx) fun s ts r =>
    ∀ name, headToken ts = .ident name → Derives ctx.depth ctx.inFn (.form top s) ts r := by
  refine (spec_currentLine.bind fun line => spec_takeName.bind fun name =>
    (spec_expect (by decide)).bind fun _ => (spec_parseExpr hf).bind fun idx =>
      (spec_expect (by decide)).bind fun _ => (spec_expect (by decide)).bind fun _ =>
        (spec_parseExpr hf).bind fun e => spec_expectNewlineOrEof.bind fun _ =>
          spec_pure (Stmt.indexAssign name idx e line)).mono ?_
  rintro s ts r ⟨_, _, ⟨rfl, rfl⟩, name, _, hname, _, _, ⟨l₁, rfl⟩, hrun⟩ x hx
  obtain ⟨idx, _, hidx, _, _, ⟨l₂, rfl⟩, _, _, ⟨l₃, rfl⟩, e, _, he, _, _, hend, rfl, rfl⟩ := hrun
  obtain ⟨l, rfl⟩ := hname x hx
  exact .indexAssign hidx he hend

omit h in
theorem spec_parseExprStmt (top : Bool) : Spec (parseExprStmt sub ctx) fun s ts r =>
    headMark ts ≠ some .fn → Derives ctx.depth ctx.inFn (.form top s) ts r := by
  refine (spec_currentLine.bind fun line => (spec_parseExpr hf).bind fun e =>
    spec_expectNewlineOrEof.bind fun _ => spec_pure (Stmt.exprStmt e line)).mono ?_
  rintro s ts r ⟨_, _, ⟨rfl, rfl⟩, e, _, he, _, _, hend, rfl, rfl⟩ hfn
  exact .exprStmt hfn he hend

omit h hf in
theorem spec_failWith {reject : P ParseError} (hreject : Framed reject) :
    Spec (failWith reject : P α) fun _ _ _ => False :=
  ⟨framed_failWith hreject, fun s a t hrun _ _ => by
    obtain ⟨e, u, -, hstop⟩ := bind_run_eq_ok.1 hrun
    cases hstop⟩

theorem spec_parseStmtInner (top : Bool) : Spec (parseStmtInner sub ctx top) fun s =>
    Derives ctx.depth ctx.inFn (.form top s) := by
  refine spec_onToken fun t => ?_
  split
  · exact spec_parseLet hf top
  · refine spec_ite (fun hfn => spec_parseReturn hf top hfn) fun _ => ?_
    exact (spec_failWith framed_rejectNonFunctionReturn).mono fun _ _ _ h => h.elim
  · refine (spec_parseIf h hf).mono fun s ts r hs hhead => ?_
    obtain ⟨l, rest, rfl⟩ := cons_of_headToken hhead (by simp)
    exact .«if» (hs (.inl rfl))
  · exact spec_parseWhile h hf top
  · exact spec_parseFor h hf top
  · exact spec_parseFnDef h hf top
  · exact spec_parseBreak top
  · exact spec_parseContinue top
  · refine spec_ite (fun htop => ?_) fun _ => ?_
    · exact htop ▸ spec_parseImport
    · exact (spec_failWith framed_rejectNonTopLevelImport).mono fun _ _ _ h => h.elim
  · exact spec_parseTryCatch h hf top
  · next name =>
    refine spec_onRest fun rest => spec_ite (fun hassign => ?_) fun _ => spec_ite (fun _ => ?_)
      fun _ => ?_
    · refine (spec_parseAssign hf top).mono fun s ts r hs hrest hhead => ?_
      exact hs name hhead (hrest ▸ hassign)
    · exact (spec_parseIndexAssign hf top).mono fun s ts r hs _ hhead => hs name hhead
    · refine (spec_parseExprStmt hf top).mono fun s ts r hs _ hhead => hs ?_
      rw [headMark, hhead]
      intro hmark
      cases hmark
  · next _ _ _ _ _ hfn _ _ _ _ _ =>
    refine (spec_parseExprStmt hf top).mono fun s ts r hs hhead => hs fun hmark => hfn ?_
    exact hhead.symm.trans (Token.mark?_eq_some.1 hmark)

end

/-! ## Programs -/

theorem nextLevel_finds {sub : Level} {depth : Nat}
    (h : depth < maxAstDepth → sub.Runs (depth + 1))
    (hs : depth < maxAstDepth → sub.Stills (depth + 1))
    (hf : depth < maxAstDepth → sub.Finds (depth + 1)) : (nextLevel sub).Finds depth where
  parseOr _ hctx := hctx ▸ spec_parseOr (hctx ▸ h) (hctx ▸ hf) (hctx ▸ hs)
  parseUnary _ hctx := hctx ▸ spec_parseUnary (hctx ▸ h) (hctx ▸ hf) (hctx ▸ hs)
  parseStmtInner top _ hctx := hctx ▸ spec_parseStmtInner (hctx ▸ h) (hctx ▸ hf) top
  parseIf _ hctx := hctx ▸ spec_parseIf (hctx ▸ h) (hctx ▸ hf)

/-- The induction is on how often a level can go through the guard. -/
theorem level_finds : ∀ {n depth : Nat}, depth ≤ maxAstDepth → maxAstDepth < depth + n →
    (level n).Finds depth := by
  intro n
  induction n with
  | zero => intro depth hle hlt; omega
  | succ n ih =>
    intro depth _ hlt
    exact nextLevel_finds (fun hdepth => level_runs hdepth (by omega))
      (fun hdepth => level_stills hdepth (by omega)) fun hdepth => ih hdepth (by omega)

theorem spec_attempt {m : P α} (hm : Spec m G) :
    Spec (m.attempt Stop.raised?) fun res ts r => ∀ a, res = .ok a → G a ts r := by
  refine ⟨meets_attempt hm.framed ?_, fun s res t hrun herrors hparts a ha => ?_⟩
  · intro e e' s t _ hrel
    exact ⟨hrel.1, hrel.2.1, by simp⟩
  · subst ha
    rcases hm' : m.run s with ⟨e | b, u⟩
    · cases e <;> simp only [attempt, hm', Stop.raised?] at hrun <;> cases hrun
    · rw [attempt_run_ok hm'] at hrun
      cases hrun
      exact hm.finds s _ _ hm' herrors hparts

/-- A round at the end of the program, or one more statement. -/
def ProgramRound (stmts : Program) (res : Program ⊕ Program) (ts r : List Spanned) : Prop :=
  (res = .inr stmts ∧ r = ts ∧ headMark ts = some .eof) ∨
  ∃ s mid, res = .inl (stmts ++ [s]) ∧ Derives 0 false (.stmt true s) ts mid ∧ r = dropNewlines mid

/-- What follows a statement; after an error there is an error in the list. -/
theorem spec_afterStmt (stmts : Program) (res : Except ParseError Stmt) :
    Spec (afterStmt stmts res) fun res' ts r =>
      ∃ s, res = .ok s ∧ res' = .inl (stmts ++ [s]) ∧ r = dropNewlines ts := by
  cases res with
  | ok s =>
    refine (spec_skipNewlines.bind fun _ => spec_pure (Sum.inl (stmts ++ [s]))).mono ?_
    rintro res' ts r ⟨_, _, rfl, rfl, rfl⟩
    exact ⟨s, rfl, rfl, rfl⟩
  | error e =>
    refine ((spec_pushError e).bind fun _ => (spec_true framed_synchronize).bind fun _ =>
      spec_skipNewlines.bind fun _ => spec_pure (Sum.inl stmts)).mono ?_
    rintro res' ts r ⟨_, _, h, _⟩
    exact h.elim

theorem spec_programStep (stmts : Program) :
    Spec (programStep (level maxAstDepth) stmts) (ProgramRound stmts) := by
  have hstmt : Spec (parseStmt (level maxAstDepth) ⟨0, 0⟩ true) fun s =>
      Derives 0 false (.stmt true s) :=
    @spec_parseStmt (level maxAstDepth) ⟨0, 0⟩ (fun hdepth => level_finds hdepth (by decide)) true
  have hround := (spec_attempt hstmt).bind fun res => spec_afterStmt stmts res
  refine ⟨framed_programStep topLevel_runs stmts, fun s res t hrun herrors hparts => ?_⟩
  rw [programStep_run] at hrun
  split at hrun
  · next heof =>
    cases hrun
    exact .inl ⟨rfl, rfl, heof⟩
  · obtain ⟨_, mid, hs, s', rfl, rfl, hr⟩ := hround.finds s res t hrun herrors hparts
    exact .inr ⟨s', mid, rfl, hs s' rfl, hr⟩

theorem spec_parseProgram : Spec parseProgram fun program ts r =>
    Derives 0 false (.program program) (dropNewlines ts) r := by
  have hloop := spec_collect (takesRounds_programStep topLevel_runs)
    (G := fun stmts => Derives 0 false (.program stmts)) spec_programStep
    (fun stmts stmts' ts r hround => by
      obtain ⟨hres, rfl, heof⟩ | ⟨_, _, hres, _⟩ := hround
      · cases hres
        exact ⟨rfl, .programNil heof⟩
      · cases hres)
    (fun stmts stmts' ts mid hround => by
      obtain ⟨hres, _⟩ | ⟨s, _, hres, hs, rfl⟩ := hround
      · cases hres
      · cases hres
        exact ⟨s, rfl, fun _ _ => .programCons hs⟩) []
  refine (spec_skipNewlines.bind fun _ => hloop).mono ?_
  rintro program ts r ⟨_, _, rfl, _, rfl, hprogram⟩
  exact hprogram

/-- An accepted program is derived from its tokens. -/
theorem parse_sound {tokens : List Spanned} {program : Program} (hparts : OneLineParts tokens)
    (h : parse tokens = .accepted program) : DerivesProgram tokens program := by
  obtain ⟨program', t, hrun⟩ := parseProgram_run ⟨tokens, []⟩
  simp only [parse, hrun] at h
  split at h
  · next hnone =>
    cases h
    exact ⟨⟨t.rest, spec_parseProgram.finds _ _ _ hrun (List.isEmpty_iff.1 hnone) hparts⟩,
      parseProgram_within hrun⟩
  · cases h

end Tsumugi.Syntax
