import Tsumugi.Syntax.LexerLines
import Tsumugi.Syntax.SourceText

/-!
# Continuation lines of the REPL (`is_incomplete` of `main.rs`)

The REPL reads on as long as more blocks are opened than ended. The depth of a text that is
accepted never falls below zero, and inside a statement every line break stands at a positive
depth.

Results:
1. `derives_shaped`: what a phrase takes is level, its line breaks stand inside blocks, and it is
   the same phrase before other tokens.
2. `program_break`: at a line break of a program at depth zero, whole statements have been read.
3. `accepted_balanced`: as many blocks are ended as opened in an accepted text, and on the way the
   depth stays between zero and `maxAstDepth`.
-/

namespace Tsumugi.Syntax

/-! ## `is_incomplete` -/

/-- What a token adds to the depth. -/
def Spanned.depth (t : Spanned) : Int :=
  match t.token with
  | .mark .«if» | .mark .fn | .mark .«while» | .mark .«for» | .mark .«try» => 1
  | .mark .«end» => -1
  | _ => 0

/-- The depth after some tokens. -/
def depthAfter (ts : List Spanned) : Int := ts.foldl (fun depth t => depth + t.depth) 0

/-- `is_incomplete`. The depth is an `i32` there; on accepted texts and their lines it stays
between zero and `maxAstDepth`. -/
def isIncomplete (parseFloat : String → Option UInt64) (text : List Char) : Bool :=
  decide (0 < depthAfter (tokenize parseFloat text))

/-! ## Depths along tokens -/

theorem depth_foldl (ts : List Spanned) (k : Int) :
    ts.foldl (fun depth t => depth + t.depth) k = k + depthAfter ts := by
  unfold depthAfter
  induction ts generalizing k with
  | nil => simp
  | cons t ts ih =>
    rw [List.foldl_cons, List.foldl_cons, ih, ih (0 + t.depth)]
    omega

@[simp] theorem depthAfter_nil : depthAfter [] = 0 := rfl

@[simp] theorem depthAfter_cons (t : Spanned) (ts : List Spanned) :
    depthAfter (t :: ts) = t.depth + depthAfter ts := by
  rw [depthAfter, List.foldl_cons, depth_foldl, Int.zero_add]

@[simp] theorem depthAfter_append (a b : List Spanned) :
    depthAfter (a ++ b) = depthAfter a + depthAfter b := by
  rw [depthAfter, List.foldl_append, depth_foldl]
  rfl

/-- From a depth on, the depth stays between zero and `n`, and every line break stands at `m` or
deeper. -/
def Stays (n m : Int) : Int → List Spanned → Prop
  | _, [] => True
  | k, t :: ts =>
    (t.token = .mark .newline → m ≤ k) ∧ 0 ≤ k + t.depth ∧ k + t.depth ≤ n ∧
      Stays n m (k + t.depth) ts

theorem stays_append {n m k : Int} {a b : List Spanned} :
    Stays n m k (a ++ b) ↔ Stays n m k a ∧ Stays n m (k + depthAfter a) b := by
  induction a generalizing k with
  | nil => simp [Stays]
  | cons t a ih =>
    simp only [List.cons_append, Stays, ih, depthAfter_cons, and_assoc, Int.add_assoc]

/-- One block further in. -/
theorem Stays.deeper {n n' m m' k j : Int} {ts : List Spanned} (h : Stays n m k ts) (hj : 0 ≤ j)
    (hn : n + j ≤ n') (hm : m' ≤ m + j) : Stays n' m' (k + j) ts := by
  induction ts generalizing k with
  | nil => trivial
  | cons t ts ih =>
    obtain ⟨hline, hlow, hhigh, hrest⟩ := h
    refine ⟨fun ht => ?_, by omega, by omega, ?_⟩
    · have := hline ht
      omega
    · have heq : k + j + t.depth = k + t.depth + j := by omega
      rw [heq]
      exact ih hrest

theorem Stays.weaken {n n' m m' k : Int} {ts : List Spanned} (h : Stays n m k ts) (hn : n ≤ n')
    (hm : m' ≤ m) : Stays n' m' k ts := by
  have hsame : Stays n' m' (k + 0) ts := h.deeper (Int.le_refl 0) (by omega) (by omega)
  rwa [Int.add_zero] at hsame

/-- The depths before a place. -/
theorem Stays.prefix_bounds {n m k : Int} {ts p q : List Spanned} (h : Stays n m k ts) (hk : 0 ≤ k)
    (hkn : k ≤ n) (hts : ts = p ++ q) : 0 ≤ k + depthAfter p ∧ k + depthAfter p ≤ n := by
  induction p generalizing k ts with
  | nil => simpa using ⟨hk, hkn⟩
  | cons t p ih =>
    subst hts
    obtain ⟨-, hlow, hhigh, hrest⟩ := h
    have := ih hrest hlow hhigh rfl
    rw [depthAfter_cons]
    omega

/-- The depth before a line break. -/
theorem Stays.at_break {n m k : Int} {p q : List Spanned} {l : Nat}
    (h : Stays n m k (p ++ tok .newline l :: q)) : m ≤ k + depthAfter p :=
  (stays_append.1 h).2.1 rfl

/-- As many blocks are ended as opened. -/
structure Balanced (n : Nat) (ts : List Spanned) : Prop where
  balanced : depthAfter ts = 0
  stays : Stays n 0 0 ts

/-- Also, all line breaks stand in blocks. -/
structure Inner (n : Nat) (ts : List Spanned) : Prop where
  balanced : depthAfter ts = 0
  stays : Stays n 1 0 ts

theorem Inner.toBalanced {n n' : Nat} {ts : List Spanned} (h : Inner n ts) (hn : n ≤ n') :
    Balanced n' ts :=
  ⟨h.balanced, h.stays.weaken (by omega) (by decide)⟩

theorem Inner.mono {n n' : Nat} {ts : List Spanned} (h : Inner n ts) (hn : n ≤ n') :
    Inner n' ts :=
  ⟨h.balanced, h.stays.weaken (by omega) (by decide)⟩

theorem Balanced.mono {n n' : Nat} {ts : List Spanned} (h : Balanced n ts) (hn : n ≤ n') :
    Balanced n' ts :=
  ⟨h.balanced, h.stays.weaken (by omega) (by decide)⟩

theorem Balanced.append {n : Nat} {a b : List Spanned} (ha : Balanced n a) (hb : Balanced n b) :
    Balanced n (a ++ b) := by
  refine ⟨by rw [depthAfter_append, ha.balanced, hb.balanced]; rfl, stays_append.2 ⟨ha.stays, ?_⟩⟩
  rw [ha.balanced]
  exact hb.stays

theorem Inner.append {n : Nat} {a b : List Spanned} (ha : Inner n a) (hb : Inner n b) :
    Inner n (a ++ b) := by
  refine ⟨by rw [depthAfter_append, ha.balanced, hb.balanced]; rfl, stays_append.2 ⟨ha.stays, ?_⟩⟩
  rw [ha.balanced]
  exact hb.stays

/-- A token that neither opens nor ends a block and is no line break. -/
def Spanned.flat (t : Spanned) : Prop := t.depth = 0 ∧ t.token ≠ .mark .newline

theorem inner_nil (n : Nat) : Inner n [] := ⟨rfl, trivial⟩

theorem Inner.cons {n : Nat} {t : Spanned} {ts : List Spanned} (ht : t.flat) (h : Inner n ts) :
    Inner n (t :: ts) := by
  refine ⟨by rw [depthAfter_cons, ht.1, h.balanced]; rfl, fun hnew => absurd hnew ht.2, ?_, ?_, ?_⟩
  · rw [ht.1]; decide
  · rw [ht.1]; omega
  · rw [ht.1]; exact h.stays

theorem Balanced.cons {n : Nat} {t : Spanned} {ts : List Spanned} (ht : t.depth = 0)
    (h : Balanced n ts) : Balanced n (t :: ts) := by
  refine ⟨by rw [depthAfter_cons, ht, h.balanced]; rfl, fun _ => Int.le_refl 0, ?_, ?_, ?_⟩
  · rw [ht]; decide
  · rw [ht]; omega
  · rw [ht]; exact h.stays

/-- A block from what opens it to its `end`. -/
theorem Balanced.block {n : Nat} {t t' : Spanned} {ts : List Spanned} (ht : t.depth = 1)
    (ht' : t'.depth = -1) (hopen : t.token ≠ .mark .newline) (h : Balanced n ts) :
    Inner (n + 1) (t :: (ts ++ [t'])) := by
  have hclose : t'.token ≠ .mark .newline := fun heq => by simp [Spanned.depth, heq] at ht'
  refine ⟨by simp [ht, ht', h.balanced], fun hnew => absurd hnew hopen, ?_, ?_, ?_⟩
  · rw [ht]; decide
  · rw [ht]; omega
  · rw [ht]
    refine stays_append.2 ⟨?_, ?_⟩
    · exact h.stays.deeper (by decide) (by omega) (by decide)
    · rw [h.balanced]
      refine ⟨fun hnew => absurd hnew hclose, ?_, ?_, trivial⟩ <;> rw [ht'] <;> omega

/-! ## Before other tokens -/

/-- The end of the tokens stays the end. -/
def KeepsEof (r r' : List Spanned) : Prop := headMark r = some .eof → headMark r' = some .eof

theorem keepsEof_append {u r r' : List Spanned} (h : KeepsEof r r') :
    KeepsEof (u ++ r) (u ++ r') := by
  cases u with
  | nil => exact h
  | cons t u => exact fun heof => heof

theorem keepsEof_cons (t : Spanned) (r r' : List Spanned) : KeepsEof (t :: r) (t :: r') :=
  fun heof => heof

/-- The line break that ends a statement, or none at the end of the tokens. -/
def LineBreak (e r : List Spanned) : Prop :=
  (e = [] ∧ headMark r = some .eof) ∨ ∃ l, e = [tok .newline l]

theorem LineEnd.swap {mid r : List Spanned} (h : LineEnd mid r) :
    ∃ e, mid = e ++ r ∧ LineBreak e r ∧ ∀ r', KeepsEof r r' → LineEnd (e ++ r') r' := by
  cases h with
  | @newline l => exact ⟨[tok .newline l], rfl, .inr ⟨l, rfl⟩, fun _ _ => .newline⟩
  | eof h => exact ⟨[], rfl, .inl ⟨rfl, h⟩, fun _ hkeep => .eof (hkeep h)⟩

/-- Only line breaks. -/
def Blank (ts : List Spanned) : Prop := ∀ t ∈ ts, t.token = .mark .newline

theorem headMark_dropNewlines (ts : List Spanned) : headMark (dropNewlines ts) ≠ some .newline := by
  induction ts with
  | nil => nofun
  | cons t ts ih =>
    by_cases ht : t.token.mark? = some .newline
    · rw [dropNewlines, List.dropWhile_cons_of_pos (by simpa using ht)]
      exact ih
    · rw [dropNewlines, List.dropWhile_cons_of_neg (by simpa using ht)]
      exact ht

theorem dropNewlines_split (ts : List Spanned) : ∃ b, Blank b ∧ ts = b ++ dropNewlines ts := by
  induction ts with
  | nil => exact ⟨[], by simp [Blank], rfl⟩
  | cons t ts ih =>
    by_cases ht : t.token.mark? = some .newline
    · obtain ⟨b, hb, heq⟩ := ih
      rw [dropNewlines, List.dropWhile_cons_of_pos (by simpa using ht)]
      refine ⟨t :: b, ?_, congrArg (t :: ·) heq⟩
      intro t' ht'
      rcases List.mem_cons.1 ht' with rfl | ht'
      · exact Token.mark?_eq_some.1 ht
      · exact hb t' ht'
    · rw [dropNewlines, List.dropWhile_cons_of_neg (by simpa using ht)]
      exact ⟨[], by simp [Blank], rfl⟩

theorem dropNewlines_blank {b ts : List Spanned} (hb : Blank b)
    (hts : headMark ts ≠ some .newline) : dropNewlines (b ++ ts) = ts := by
  rw [dropNewlines, List.dropWhile_append_of_pos fun t ht => by simpa using hb t ht]
  exact dropNewlines_of_headMark hts

theorem headMark_append_ne {u r r' : List Spanned} {m : Mark} (h : headMark (u ++ r) ≠ some m)
    (hr : headMark r' ≠ some m) : headMark (u ++ r') ≠ some m := by
  cases u with
  | nil => exact hr
  | cons t u => exact h

theorem Blank.balanced {b : List Spanned} (h : Blank b) (n : Nat) : Balanced n b := by
  induction b with
  | nil => exact (inner_nil 0).toBalanced (Nat.zero_le n)
  | cons t b ih =>
    have ht : t.depth = 0 := by simp [Spanned.depth, h t List.mem_cons_self]
    exact (ih fun t' ht' => h t' (List.mem_cons_of_mem _ ht')).cons ht

/-- Blank lines and then a phrase, before other tokens. -/
theorem dropNewlines_swap {mid u r : List Spanned} (h : dropNewlines mid = u ++ r) :
    ∃ b, Blank b ∧ mid = b ++ (u ++ r) ∧
      ∀ r', headMark r' ≠ some .newline → dropNewlines (b ++ (u ++ r')) = u ++ r' := by
  obtain ⟨b, hb, heq⟩ := dropNewlines_split mid
  rw [h] at heq
  refine ⟨b, hb, heq, fun r' hr' => dropNewlines_blank hb (headMark_append_ne (r := r) ?_ hr')⟩
  rw [← h]
  exact headMark_dropNewlines mid

/-- A mark follows. -/
def FollowedBy (m : Mark) (r r' : List Spanned) : Prop :=
  KeepsEof r r' ∧ ∃ l rest, r' = tok m l :: rest

theorem followedBy_tok (m : Mark) (l : Nat) (r r' : List Spanned) :
    FollowedBy m (tok m l :: r) (tok m l :: r') :=
  ⟨keepsEof_cons _ _ _, l, r', rfl⟩

/-- What may stand after a phrase in the place of what stands there. -/
def Phrase.Follows (r r' : List Spanned) : Phrase → Prop
  | .block terminators _ =>
    KeepsEof r r' ∧ headMark r' ≠ some .newline ∧
      (headMark r' = some .eof ∨ ∃ m ∈ terminators, headMark r' = some m)
  | .program _ => headMark r' = some .eof
  | .parts _ _ _ => r' = r
  | .args _ | .params _ => FollowedBy .rParen r r'
  | .moreExprs true _ => FollowedBy .rBracket r r'
  | .morePairs _ => FollowedBy .rBrace r r'
  | _ => KeepsEof r r'

/-! ## What a phrase takes -/

/-- What a statement takes: its tokens and the line break. -/
def TakesLine (n : Nat) (used r : List Spanned) : Prop :=
  ∃ x e, used = x ++ e ∧ Inner n x ∧ LineBreak e r

/-- What a phrase takes at a depth of nesting. -/
def Phrase.Takes (d : Nat) (used r : List Spanned) : Phrase → Prop
  | .expr _ => Inner (maxAstDepth - d) used ∧ used ≠ []
  | .binary _ _ | .unary _ | .call _ | .primary _ => Inner (maxAstDepth - d + 1) used ∧ used ≠ []
  | .args _ | .moreExprs _ _ | .pair _ | .morePairs _ | .params _ | .moreParams _ =>
    Inner (maxAstDepth - d) used
  | .parts _ _ _ => True
  | .block _ _ | .program _ => Balanced (maxAstDepth - d) used
  | .stmt _ _ => TakesLine (maxAstDepth - d) used r
  | .form _ _ => TakesLine (maxAstDepth - d + 1) used r
  | .conditional _ =>
    ∃ t x e l l', used = tok t l :: (x ++ tok .«end» l' :: e) ∧
      Balanced (maxAstDepth - d) x ∧ LineBreak e r
  | .branches _ =>
    ∃ x e l, used = x ++ tok .«end» l :: e ∧ Balanced (maxAstDepth - d) x ∧ LineBreak e r ∧
      ∃ m ∈ [Mark.«else», .elif, .«end»], headMark (x ++ [tok .«end» l]) = some m

/-- A phrase takes these tokens, and is the same before other tokens. -/
def Phrase.Shaped (d : Nat) (f : Bool) (ts r : List Spanned) (φ : Phrase) : Prop :=
  ∃ used, ts = used ++ r ∧ φ.Takes d used r ∧
    ∀ r', φ.Follows r r' → Derives d f φ (used ++ r') r'

/-! ## Flat tokens -/

/-- The marks that neither open nor end a block or a line. -/
def Mark.flat (m : Mark) : Bool :=
  m ∉ [.«if», .fn, .«while», .«for», .«try», .«end», .newline]

theorem flat_tok {m : Mark} (h : m.flat = true) (l : Nat) : (tok m l).flat := by
  cases m <;> first | exact absurd h (by decide) | exact ⟨rfl, nofun⟩

theorem flat_ops {p : Prec} {m : Mark} {op : BinOpKind} (h : p.ops m = some op) :
    m.flat = true := by
  cases p <;> cases m <;> first | rfl | cases h

theorem flat_unaryOps {m : Mark} {op : UnaryOpKind} (h : unaryOps m = some op) :
    m.flat = true := by
  cases m <;> first | rfl | cases h

theorem inner_tok {n : Nat} {m : Mark} {l : Nat} {ts : List Spanned} (h : Inner n ts)
    (hm : m.flat = true := by rfl) : Inner n (tok m l :: ts) :=
  h.cons (flat_tok hm l)

theorem inner_ident {n : Nat} {name : String} {l : Nat} {ts : List Spanned} (h : Inner n ts) :
    Inner n (.mk (.ident name) l :: ts) :=
  h.cons ⟨rfl, nofun⟩

theorem balanced_newline {n l : Nat} {ts : List Spanned} (h : Balanced n ts) :
    Balanced n (tok .newline l :: ts) :=
  h.cons rfl

/-- A primary of one token. -/
theorem leaf_shaped {d l : Nat} {f : Bool} {t : Token} {e : Expr} {r : List Spanned}
    (hflat : (Spanned.mk t l).flat)
    (h : ∀ r, Derives d f (.primary e) (.mk t l :: r) r) :
    (Phrase.primary e).Shaped d f (.mk t l :: r) r :=
  ⟨[.mk t l], rfl, ⟨(inner_nil _).cons hflat, by simp⟩, fun r' _ => h r'⟩

theorem TakesLine.mono {n n' : Nat} {used r : List Spanned} (h : TakesLine n used r)
    (hn : n ≤ n') : TakesLine n' used r := by
  obtain ⟨x, e, heq, hx, he⟩ := h
  exact ⟨x, e, heq, hx.mono hn, he⟩

/-- What a statement takes, with its line break, is balanced. -/
theorem TakesLine.balanced {n : Nat} {used r : List Spanned} (h : TakesLine n used r) :
    Balanced n used := by
  obtain ⟨x, e, rfl, hx, ⟨rfl, -⟩ | ⟨l, rfl⟩⟩ := h
  · rw [List.append_nil]
    exact hx.toBalanced (Nat.le_refl n)
  · exact (hx.toBalanced (Nat.le_refl n)).append
      (balanced_newline ((inner_nil n).toBalanced (Nat.le_refl n)))

/-- A block that ends a statement. -/
theorem takesLine_block {n l l' : Nat} {m : Mark} {x e r : List Spanned}
    (hm : (tok m l).depth = 1) (hx : Balanced n x) (he : LineBreak e r) :
    TakesLine (n + 1) (tok m l :: (x ++ tok .«end» l' :: e)) r := by
  refine ⟨tok m l :: (x ++ [tok .«end» l']), e, by simp, hx.block hm rfl ?_, he⟩
  intro hnew
  cases hnew
  cases hm

theorem headMark_append {u : List Spanned} (hu : u ≠ []) (r r' : List Spanned) :
    headMark (u ++ r) = headMark (u ++ r') := by
  cases u with
  | nil => exact absurd rfl hu
  | cons t u => rfl

theorem headLine_append {u : List Spanned} (hu : u ≠ []) (r r' : List Spanned) :
    headLine (u ++ r) = headLine (u ++ r') := by
  cases u with
  | nil => exact absurd rfl hu
  | cons t u => rfl

theorem follows_tok {m : Mark} {terminators : List Mark} (hm : m ∈ terminators ∧ m ≠ .newline)
    (stmts : Block) (l : Nat) (r r' : List Spanned) :
    (Phrase.block terminators stmts).Follows (tok m l :: r) (tok m l :: r') :=
  ⟨keepsEof_cons _ _ _, headMark_tok hm.2, .inr ⟨m, hm.1, rfl⟩⟩

/-- The word `return` before the body of a lambda, before other tokens. -/
theorem afterReturn_swap {mid u r : List Spanned} (h : afterReturn mid = u ++ r) (hu : u ≠ []) :
    ∃ b, (∀ n, Inner n b) ∧ mid = b ++ (u ++ r) ∧ ∀ r', afterReturn (b ++ (u ++ r')) = u ++ r' ∧
      headLine (b ++ (u ++ r')) = headLine mid := by
  by_cases hreturn : headMark mid = some .«return»
  · obtain ⟨l, rest, rfl⟩ := cons_of_mark hreturn (by decide)
    rw [afterReturn, if_pos hreturn] at h
    exact ⟨[tok .«return» l], fun n => inner_tok (inner_nil n), congrArg (_ :: ·) h,
      fun r' => ⟨rfl, rfl⟩⟩
  · rw [afterReturn, if_neg hreturn] at h
    refine ⟨[], inner_nil, h, fun r' => ⟨if_neg ?_, ?_⟩⟩
    · rw [List.nil_append, headMark_append hu r' r, ← h]
      exact hreturn
    · rw [List.nil_append, headLine_append hu r' r, ← h]

variable {d : Nat} {f : Bool} {ts r : List Spanned}

theorem derives_shaped {φ : Phrase} (h : Derives d f φ ts r) (hd : d ≤ maxAstDepth) :
    φ.Shaped d f ts r := by
  induction h with
  | expr hlt _ ih =>
    obtain ⟨u, rfl, ⟨hu, hne⟩, hswap⟩ := ih hlt
    exact ⟨u, rfl, ⟨hu.mono (by omega), hne⟩, fun r' hr' => .expr hlt (hswap r' hr')⟩
  | @operand _ _ p _ _ _ _ ih =>
    obtain ⟨u, rfl, hu, hswap⟩ := ih hd
    exact ⟨u, rfl, by cases p <;> exact hu,
      fun r' hr' => .operand (hswap r' (by cases p <;> exact hr'))⟩
  | @operation d _ p _ _ _ m l _ _ _ hop _ _ ih ih' =>
    obtain ⟨u, rfl, ⟨hu, -⟩, hswap⟩ := ih hd
    obtain ⟨u', rfl, hu', hswap'⟩ := ih' hd
    have hright : Inner (maxAstDepth - d + 1) u' := by cases p <;> exact hu'.1
    refine ⟨u ++ tok m l :: u', by simp, ⟨hu.append (inner_tok hright (flat_ops hop)), by simp⟩,
      fun r' hr' => ?_⟩
    rw [List.append_assoc]
    exact .operation hop (hswap _ (keepsEof_cons _ _ _)) (hswap' r' (by cases p <;> exact hr'))
  | unaryCall _ ih =>
    obtain ⟨u, rfl, hu, hswap⟩ := ih hd
    exact ⟨u, rfl, hu, fun r' hr' => .unaryCall (hswap r' hr')⟩
  | @unaryOp d _ _ _ m l _ _ hlt hop _ ih =>
    obtain ⟨u, rfl, ⟨hu, -⟩, hswap⟩ := ih hlt
    exact ⟨tok m l :: u, rfl, ⟨inner_tok (hu.mono (by omega)) (flat_unaryOps hop), by simp⟩,
      fun r' hr' => .unaryOp hlt hop (hswap r' hr')⟩
  | callPrimary _ ih =>
    obtain ⟨u, rfl, hu, hswap⟩ := ih hd
    exact ⟨u, rfl, hu, fun r' hr' => .callPrimary (hswap r' hr')⟩
  | @callArgs _ _ _ _ l l' _ _ _ _ _ ih ih' =>
    obtain ⟨u, rfl, ⟨hu, -⟩, hswap⟩ := ih hd
    obtain ⟨u', rfl, hu', hswap'⟩ := ih' hd
    refine ⟨u ++ tok .lParen l :: (u' ++ [tok .rParen l']), by simp, ⟨hu.append (inner_tok
      ((hu'.mono (Nat.le_succ _)).append (inner_tok (inner_nil _)))), by simp⟩, fun r' _ => ?_⟩
    simpa only [List.append_assoc, List.cons_append, List.nil_append] using
      Derives.callArgs (hswap _ (keepsEof_cons _ _ _)) (hswap' _ (followedBy_tok _ l' _ r'))
  | @callIndex _ _ _ _ l l' _ _ _ _ _ ih ih' =>
    obtain ⟨u, rfl, ⟨hu, -⟩, hswap⟩ := ih hd
    obtain ⟨u', rfl, ⟨hu', -⟩, hswap'⟩ := ih' hd
    refine ⟨u ++ tok .lBracket l :: (u' ++ [tok .rBracket l']), by simp, ⟨hu.append (inner_tok
      ((hu'.mono (Nat.le_succ _)).append (inner_tok (inner_nil _)))), by simp⟩, fun r' _ => ?_⟩
    simpa only [List.append_assoc, List.cons_append, List.nil_append] using
      Derives.callIndex (hswap _ (keepsEof_cons _ _ _)) (hswap' _ (keepsEof_cons _ _ r'))
  | argsNil =>
    exact ⟨[], rfl, inner_nil _, fun r' ⟨_, l, rest, hr'⟩ => by subst hr'; exact .argsNil⟩
  | paramsNil =>
    exact ⟨[], rfl, inner_nil _, fun r' ⟨_, l, rest, hr'⟩ => by subst hr'; exact .paramsNil⟩
  | argsCons _ _ ih ih' =>
    obtain ⟨u, rfl, ⟨hu, -⟩, hswap⟩ := ih hd
    obtain ⟨u', rfl, hu', hswap'⟩ := ih' hd
    refine ⟨u ++ u', by simp, hu.append hu', fun r' hr' => ?_⟩
    rw [List.append_assoc]
    exact .argsCons (hswap _ (keepsEof_append hr'.1)) (hswap' r' hr'.1)
  | @moreNil _ _ literal => exact ⟨[], rfl, inner_nil _, fun r' _ => .moreNil⟩
  | @moreTrailing _ _ l =>
    refine ⟨[tok .comma l], rfl, inner_tok (inner_nil _), fun r' ⟨_, l', rest, hr'⟩ => ?_⟩
    subst hr'
    exact .moreTrailing
  | @moreCons _ _ literal _ _ l _ _ r _ _ ih ih' =>
    obtain ⟨u, rfl, ⟨hu, -⟩, hswap⟩ := ih hd
    obtain ⟨u', rfl, hu', hswap'⟩ := ih' hd
    refine ⟨tok .comma l :: (u ++ u'), by simp, inner_tok (hu.append hu'), fun r' hr' => ?_⟩
    have hkeep : KeepsEof r r' := by cases literal with
      | false => exact hr'
      | true => exact hr'.1
    rw [List.cons_append, List.append_assoc]
    exact .moreCons (hswap _ (keepsEof_append hkeep)) (hswap' r' (by cases literal <;> exact hr'))
  | @pair _ _ _ _ l _ _ _ _ _ ih ih' =>
    obtain ⟨u, rfl, ⟨hu, -⟩, hswap⟩ := ih hd
    obtain ⟨u', rfl, ⟨hu', -⟩, hswap'⟩ := ih' hd
    refine ⟨u ++ tok .colon l :: u', by simp, hu.append (inner_tok hu'), fun r' hr' => ?_⟩
    rw [List.append_assoc]
    exact .pair (hswap _ (keepsEof_cons _ _ _)) (hswap' r' hr')
  | pairsNil => exact ⟨[], rfl, inner_nil _, fun r' _ => .pairsNil⟩
  | @pairsTrailing _ _ l =>
    refine ⟨[tok .comma l], rfl, inner_tok (inner_nil _), fun r' ⟨_, l', rest, hr'⟩ => ?_⟩
    subst hr'
    exact .pairsTrailing
  | @pairsCons _ _ _ _ l _ _ _ _ _ ih ih' =>
    obtain ⟨u, rfl, hu, hswap⟩ := ih hd
    obtain ⟨u', rfl, hu', hswap'⟩ := ih' hd
    refine ⟨tok .comma l :: (u ++ u'), by simp, inner_tok (hu.append hu'), fun r' hr' => ?_⟩
    rw [List.cons_append, List.append_assoc]
    exact .pairsCons (hswap _ (keepsEof_append hr'.1)) (hswap' r' hr')
  | int => exact leaf_shaped ⟨rfl, nofun⟩ fun _ => .int
  | float => exact leaf_shaped ⟨rfl, nofun⟩ fun _ => .float
  | str => exact leaf_shaped ⟨rfl, nofun⟩ fun _ => .str
  | boolTrue => exact leaf_shaped (flat_tok rfl _) fun _ => .boolTrue
  | boolFalse => exact leaf_shaped (flat_tok rfl _) fun _ => .boolFalse
  | null => exact leaf_shaped (flat_tok rfl _) fun _ => .null
  | ident => exact leaf_shaped ⟨rfl, nofun⟩ fun _ => .ident
  | fStr hparts _ => exact leaf_shaped ⟨rfl, nofun⟩ fun _ => .fStr hparts
  | @print _ _ _ l l' l'' _ _ _ ih =>
    obtain ⟨u, rfl, hu, hswap⟩ := ih hd
    refine ⟨tok .print l :: tok .lParen l' :: (u ++ [tok .rParen l'']), by simp,
      ⟨inner_tok (inner_tok ((hu.mono (Nat.le_succ _)).append (inner_tok (inner_nil _)))),
        by simp⟩, fun r' _ => ?_⟩
    simpa only [List.append_assoc, List.cons_append, List.nil_append] using
      Derives.print (hswap _ (followedBy_tok _ l'' _ r'))
  | @paren _ _ _ l l' _ _ _ ih =>
    obtain ⟨u, rfl, ⟨hu, -⟩, hswap⟩ := ih hd
    refine ⟨tok .lParen l :: (u ++ [tok .rParen l']), by simp,
      ⟨inner_tok ((hu.mono (Nat.le_succ _)).append (inner_tok (inner_nil _))), by simp⟩,
      fun r' _ => ?_⟩
    simpa only [List.append_assoc, List.cons_append, List.nil_append] using
      Derives.paren (hswap _ (keepsEof_cons _ _ r'))
  | @listNil _ _ l l' =>
    exact ⟨[tok .lBracket l, tok .rBracket l'], rfl,
      ⟨inner_tok (inner_tok (inner_nil _)), by simp⟩, fun r' _ => .listNil⟩
  | @dictNil _ _ l l' =>
    exact ⟨[tok .lBrace l, tok .rBrace l'], rfl,
      ⟨inner_tok (inner_tok (inner_nil _)), by simp⟩, fun r' _ => .dictNil⟩
  | @list _ _ _ _ l l' _ _ _ _ _ ih ih' =>
    obtain ⟨u, rfl, ⟨hu, -⟩, hswap⟩ := ih hd
    obtain ⟨u', rfl, hu', hswap'⟩ := ih' hd
    refine ⟨tok .lBracket l :: (u ++ (u' ++ [tok .rBracket l'])), by simp,
      ⟨inner_tok ((hu.mono (Nat.le_succ _)).append ((hu'.mono (Nat.le_succ _)).append
        (inner_tok (inner_nil _)))), by simp⟩, fun r' _ => ?_⟩
    simpa only [List.append_assoc, List.cons_append, List.nil_append] using
      Derives.list (hswap _ (keepsEof_append (keepsEof_cons _ _ _)))
        (hswap' _ (followedBy_tok _ l' _ r'))
  | @dict _ _ _ _ l l' _ _ _ _ _ ih ih' =>
    obtain ⟨u, rfl, hu, hswap⟩ := ih hd
    obtain ⟨u', rfl, hu', hswap'⟩ := ih' hd
    refine ⟨tok .lBrace l :: (u ++ (u' ++ [tok .rBrace l'])), by simp,
      ⟨inner_tok ((hu.mono (Nat.le_succ _)).append ((hu'.mono (Nat.le_succ _)).append
        (inner_tok (inner_nil _)))), by simp⟩, fun r' _ => ?_⟩
    simpa only [List.append_assoc, List.cons_append, List.nil_append] using
      Derives.dict (hswap _ (keepsEof_append (keepsEof_cons _ _ _)))
        (hswap' _ (followedBy_tok _ l' _ r'))
  | @lambdaBlock _ _ _ _ l l₁ l₂ l₃ l₄ _ _ _ _ _ ih ih' =>
    obtain ⟨u, rfl, hu, hswap⟩ := ih hd
    obtain ⟨u', rfl, hu', hswap'⟩ := ih' hd
    refine ⟨tok .fn l :: (tok .lParen l₁ :: (u ++ tok .rParen l₂ :: tok .newline l₃ :: u') ++
      [tok .«end» l₄]), by simp, ⟨Balanced.block rfl rfl nofun (Balanced.cons rfl
        ((hu.toBalanced (Nat.le_refl _)).append (Balanced.cons rfl (balanced_newline hu')))),
        by simp⟩, fun r' _ => ?_⟩
    simpa only [List.append_assoc, List.cons_append, List.nil_append] using
      Derives.lambdaBlock (hswap _ (followedBy_tok _ _ _ _))
        (hswap' _ (follows_tok (by simp) _ l₄ _ r'))
  | @lambdaExpr _ _ _ _ l l₁ l₂ l₃ _ _ _ _ _ ih ih' =>
    obtain ⟨u, rfl, hu, hswap⟩ := ih hd
    obtain ⟨u', heq, ⟨hu', hne⟩, hswap'⟩ := ih' hd
    obtain ⟨b, hb, hmid, hagain⟩ := afterReturn_swap heq hne
    refine ⟨tok .fn l :: (tok .lParen l₁ :: (u ++ tok .rParen l₂ :: (b ++ u')) ++
      [tok .«end» l₃]), by simp [hmid], ⟨Balanced.block rfl rfl nofun ((inner_tok
        (hu.append (inner_tok ((hb _).append hu')))).toBalanced (Nat.le_refl _)), by simp⟩,
      fun r' _ => ?_⟩
    have hbody := hswap' (tok .«end» l₃ :: r') (keepsEof_cons _ _ _)
    rw [← (hagain _).1] at hbody
    have hlambda : Derives _ _ (.primary (.lambda _ [.«return» _ (headLine (b ++ (u' ++ _)))]))
        (tok .fn l :: tok .lParen l₁ :: (u ++ tok .rParen l₂ :: (b ++ (u' ++ _)))) r' :=
      .lambdaExpr (hswap _ (followedBy_tok _ _ _ _)) hbody
    rw [(hagain _).2] at hlambda
    simpa only [List.append_assoc, List.cons_append, List.nil_append] using hlambda
  | partsNil => exact ⟨[], rfl, trivial, fun r' hr' => by subst hr'; exact .partsNil⟩
  | partsLiteral hparts _ =>
    exact ⟨[], rfl, trivial, fun r' hr' => by subst hr'; exact .partsLiteral hparts⟩
  | partsExpr hexpr hr hmore _ _ =>
    exact ⟨[], rfl, trivial, fun r' hr' => by subst hr'; exact .partsExpr hexpr hr hmore⟩
  | @paramsCons _ _ name _ l _ _ _ ih =>
    obtain ⟨u, rfl, hu, hswap⟩ := ih hd
    exact ⟨.mk (.ident name) l :: u, rfl, inner_ident hu,
      fun r' hr' => .paramsCons (hswap r' hr'.1)⟩
  | moreParamsNil => exact ⟨[], rfl, inner_nil _, fun r' _ => .moreParamsNil⟩
  | @moreParamsCons _ _ name _ l l' _ _ _ ih =>
    obtain ⟨u, rfl, hu, hswap⟩ := ih hd
    exact ⟨tok .comma l :: .mk (.ident name) l' :: u, rfl, inner_tok (inner_ident hu),
      fun r' hr' => .moreParamsCons (hswap r' hr')⟩
  | blockNil =>
    exact ⟨[], rfl, (inner_nil _).toBalanced (Nat.le_refl _), fun r' hr' => .blockNil hr'.2.2⟩
  | blockCons _ _ ih ih' =>
    obtain ⟨u, rfl, hu, hswap⟩ := ih hd
    obtain ⟨u', heq, hu', hswap'⟩ := ih' hd
    obtain ⟨b, hb, rfl, hdrop⟩ := dropNewlines_swap heq
    refine ⟨u ++ (b ++ u'), by simp, hu.balanced.append ((hb.balanced _).append hu'),
      fun r' hr' => ?_⟩
    have hrest := hswap' r' hr'
    rw [← hdrop r' hr'.2.1] at hrest
    simpa only [List.append_assoc] using
      Derives.blockCons (hswap _ (keepsEof_append (keepsEof_append hr'.1))) hrest
  | stmt hlt _ ih =>
    obtain ⟨u, rfl, hu, hswap⟩ := ih hlt
    exact ⟨u, rfl, hu.mono (by omega), fun r' hr' => .stmt hlt (hswap r' hr')⟩
  | @«let» _ _ _ name _ l l₁ l₂ _ _ _ _ hend ih =>
    obtain ⟨u, rfl, ⟨hu, -⟩, hswap⟩ := ih hd
    obtain ⟨e, rfl, he, hend'⟩ := hend.swap
    refine ⟨tok .«let» l :: .mk (.ident name) l₁ :: tok .assign l₂ :: (u ++ e), by simp,
      ⟨tok .«let» l :: .mk (.ident name) l₁ :: tok .assign l₂ :: u, e, rfl,
        inner_tok (inner_ident (inner_tok (hu.mono (Nat.le_succ _)))), he⟩, fun r' hr' => ?_⟩
    simpa only [List.append_assoc, List.cons_append] using
      Derives.«let» (hswap _ (keepsEof_append hr')) (hend' r' hr')
  | @assign _ _ _ name _ l l₁ _ _ _ _ hend ih =>
    obtain ⟨u, rfl, ⟨hu, -⟩, hswap⟩ := ih hd
    obtain ⟨e, rfl, he, hend'⟩ := hend.swap
    refine ⟨.mk (.ident name) l :: tok .assign l₁ :: (u ++ e), by simp,
      ⟨.mk (.ident name) l :: tok .assign l₁ :: u, e, rfl,
        inner_ident (inner_tok (hu.mono (Nat.le_succ _))), he⟩, fun r' hr' => ?_⟩
    simpa only [List.append_assoc, List.cons_append] using
      Derives.assign (hswap _ (keepsEof_append hr')) (hend' r' hr')
  | @indexAssign _ _ _ name _ _ l l₁ l₂ l₃ _ _ _ _ _ _ hend ih ih' =>
    obtain ⟨u, rfl, ⟨hu, -⟩, hswap⟩ := ih hd
    obtain ⟨u', rfl, ⟨hu', -⟩, hswap'⟩ := ih' hd
    obtain ⟨e, rfl, he, hend'⟩ := hend.swap
    refine ⟨.mk (.ident name) l :: tok .lBracket l₁ :: (u ++ tok .rBracket l₂ :: tok .assign l₃ ::
        (u' ++ e)), by simp,
      ⟨.mk (.ident name) l :: tok .lBracket l₁ :: (u ++ tok .rBracket l₂ :: tok .assign l₃ :: u'),
        e, by simp, inner_ident (inner_tok ((hu.mono (Nat.le_succ _)).append
          (inner_tok (inner_tok (hu'.mono (Nat.le_succ _)))))), he⟩, fun r' hr' => ?_⟩
    simpa only [List.append_assoc, List.cons_append] using Derives.indexAssign
      (hswap _ (keepsEof_cons _ _ _)) (hswap' _ (keepsEof_append hr')) (hend' r' hr')
  | @«return» _ _ _ l _ _ _ _ hend ih =>
    obtain ⟨u, rfl, ⟨hu, -⟩, hswap⟩ := ih hd
    obtain ⟨e, rfl, he, hend'⟩ := hend.swap
    refine ⟨tok .«return» l :: (u ++ e), by simp,
      ⟨tok .«return» l :: u, e, rfl, inner_tok (hu.mono (Nat.le_succ _)), he⟩, fun r' hr' => ?_⟩
    simpa only [List.append_assoc, List.cons_append] using
      Derives.«return» (hswap _ (keepsEof_append hr')) (hend' r' hr')
  | «if» _ ih =>
    obtain ⟨used, heq, ⟨t, x, e, l, l', rfl, hx, he⟩, hswap⟩ := ih hd
    cases heq
    exact ⟨_, rfl, takesLine_block rfl hx he, fun r' hr' => .«if» (hswap r' hr')⟩
  | @«while» _ _ _ _ _ l l₁ l₂ _ _ _ _ _ _ hend ih ih' =>
    obtain ⟨u, rfl, ⟨hu, -⟩, hswap⟩ := ih hd
    obtain ⟨u', heq, hu', hswap'⟩ := ih' hd
    obtain ⟨b, hb, rfl, hdrop⟩ := dropNewlines_swap heq
    obtain ⟨e, rfl, he, hend'⟩ := hend.swap
    refine ⟨tok .«while» l :: ((u ++ tok .newline l₁ :: (b ++ u')) ++ tok .«end» l₂ :: e), by simp,
      takesLine_block rfl ((hu.toBalanced (Nat.le_refl _)).append
        (balanced_newline ((hb.balanced _).append hu'))) he, fun r' hr' => ?_⟩
    have hbody := hswap' (tok .«end» l₂ :: (e ++ r')) (follows_tok (by simp) _ _ _ _)
    rw [← hdrop _ (headMark_tok (by decide))] at hbody
    simpa only [List.append_assoc, List.cons_append] using
      Derives.«while» (hswap _ (keepsEof_cons _ _ _)) hbody (hend' r' hr')
  | @«for» _ _ _ var _ _ l l₁ l₂ l₃ l₄ _ _ _ _ _ _ hend ih ih' =>
    obtain ⟨u, rfl, ⟨hu, -⟩, hswap⟩ := ih hd
    obtain ⟨u', heq, hu', hswap'⟩ := ih' hd
    obtain ⟨b, hb, rfl, hdrop⟩ := dropNewlines_swap heq
    obtain ⟨e, rfl, he, hend'⟩ := hend.swap
    refine ⟨tok .«for» l :: ((.mk (.ident var) l₁ :: tok .«in» l₂ :: (u ++ tok .newline l₃ ::
        (b ++ u'))) ++ tok .«end» l₄ :: e), by simp,
      takesLine_block rfl (Balanced.cons rfl (Balanced.cons rfl
        ((hu.toBalanced (Nat.le_refl _)).append
          (balanced_newline ((hb.balanced _).append hu'))))) he, fun r' hr' => ?_⟩
    have hbody := hswap' (tok .«end» l₄ :: (e ++ r')) (follows_tok (by simp) _ _ _ _)
    rw [← hdrop _ (headMark_tok (by decide))] at hbody
    simpa only [List.append_assoc, List.cons_append] using
      Derives.«for» (hswap _ (keepsEof_cons _ _ _)) hbody (hend' r' hr')
  | @fnDef _ _ _ name _ _ l l₁ l₂ l₃ l₄ l₅ _ _ _ _ _ _ hend ih ih' =>
    obtain ⟨u, rfl, hu, hswap⟩ := ih hd
    obtain ⟨u', heq, hu', hswap'⟩ := ih' hd
    obtain ⟨b, hb, rfl, hdrop⟩ := dropNewlines_swap heq
    obtain ⟨e, rfl, he, hend'⟩ := hend.swap
    refine ⟨tok .fn l :: ((.mk (.ident name) l₁ :: tok .lParen l₂ :: (u ++ tok .rParen l₃ ::
        tok .newline l₄ :: (b ++ u'))) ++ tok .«end» l₅ :: e), by simp,
      takesLine_block rfl (Balanced.cons rfl (Balanced.cons rfl
        ((hu.toBalanced (Nat.le_refl _)).append
          (Balanced.cons rfl (balanced_newline ((hb.balanced _).append hu')))))) he, fun r' hr' => ?_⟩
    have hbody := hswap' (tok .«end» l₅ :: (e ++ r')) (follows_tok (by simp) _ _ _ _)
    rw [← hdrop _ (headMark_tok (by decide))] at hbody
    simpa only [List.append_assoc, List.cons_append] using
      Derives.fnDef (hswap _ (followedBy_tok _ _ _ _)) hbody (hend' r' hr')
  | @«break» _ _ _ l _ _ hend =>
    obtain ⟨e, rfl, he, hend'⟩ := hend.swap
    exact ⟨tok .«break» l :: e, rfl, ⟨[tok .«break» l], e, rfl, inner_tok (inner_nil _), he⟩,
      fun r' hr' => .«break» (hend' r' hr')⟩
  | @«continue» _ _ _ l _ _ hend =>
    obtain ⟨e, rfl, he, hend'⟩ := hend.swap
    exact ⟨tok .«continue» l :: e, rfl,
      ⟨[tok .«continue» l], e, rfl, inner_tok (inner_nil _), he⟩,
      fun r' hr' => .«continue» (hend' r' hr')⟩
  | @«import» _ _ path l l₁ _ _ hend =>
    obtain ⟨e, rfl, he, hend'⟩ := hend.swap
    exact ⟨tok .«import» l :: .mk (.str path) l₁ :: e, rfl, ⟨[tok .«import» l, .mk (.str path) l₁],
      e, rfl, inner_tok ((inner_nil _).cons ⟨rfl, nofun⟩), he⟩,
      fun r' hr' => .«import» (hend' r' hr')⟩
  | @tryCatch _ _ _ _ var _ l l₁ l₂ l₃ l₄ l₅ _ _ _ _ _ _ hend ih ih' =>
    obtain ⟨u, heq, hu, hswap⟩ := ih hd
    obtain ⟨b, hb, rfl, hdrop⟩ := dropNewlines_swap heq
    obtain ⟨u', heq', hu', hswap'⟩ := ih' hd
    obtain ⟨b', hb', rfl, hdrop'⟩ := dropNewlines_swap heq'
    obtain ⟨e, rfl, he, hend'⟩ := hend.swap
    refine ⟨tok .«try» l :: ((tok .newline l₁ :: (b ++ (u ++ tok .«catch» l₂ ::
        .mk (.ident var) l₃ :: tok .newline l₄ :: (b' ++ u')))) ++ tok .«end» l₅ :: e), by simp,
      takesLine_block rfl (balanced_newline ((hb.balanced _).append (hu.append
        (Balanced.cons rfl (Balanced.cons rfl (balanced_newline
          ((hb'.balanced _).append hu'))))))) he, fun r' hr' => ?_⟩
    have htry := hswap (tok .«catch» l₂ :: .mk (.ident var) l₃ :: tok .newline l₄ ::
      (b' ++ (u' ++ tok .«end» l₅ :: (e ++ r')))) (follows_tok (by simp) _ _ _ _)
    rw [← hdrop _ (headMark_tok (by decide))] at htry
    have hcatch := hswap' (tok .«end» l₅ :: (e ++ r')) (follows_tok (by simp) _ _ _ _)
    rw [← hdrop' _ (headMark_tok (by decide))] at hcatch
    simpa only [List.append_assoc, List.cons_append] using
      Derives.tryCatch htry hcatch (hend' r' hr')
  | exprStmt hfn _ hend ih =>
    obtain ⟨u, rfl, ⟨hu, hne⟩, hswap⟩ := ih hd
    obtain ⟨e, rfl, he, hend'⟩ := hend.swap
    refine ⟨u ++ e, by simp, ⟨u, e, rfl, hu.mono (Nat.le_succ _), he⟩, fun r' hr' => ?_⟩
    rw [headMark_append hne _ (e ++ r')] at hfn
    rw [headLine_append hne _ (e ++ r'), List.append_assoc]
    exact .exprStmt hfn (hswap _ (keepsEof_append hr')) (hend' r' hr')
  | @conditional _ _ _ _ _ l l₁ t _ _ _ _ ht _ _ _ ih ih' ih'' =>
    obtain ⟨u, rfl, ⟨hu, -⟩, hswap⟩ := ih hd
    obtain ⟨u', heq, hu', hswap'⟩ := ih' hd
    obtain ⟨b, hb, rfl, hdrop⟩ := dropNewlines_swap heq
    obtain ⟨used, rfl, ⟨x, e, l', rfl, hx, he, m, hm, hhead⟩, hswap''⟩ := ih'' hd
    refine ⟨tok t l :: ((u ++ tok .newline l₁ :: (b ++ (u' ++ x))) ++ tok .«end» l' :: e), by simp,
      ⟨t, _, e, l, l', rfl, (hu.toBalanced (Nat.le_refl _)).append
        (balanced_newline ((hb.balanced _).append (hu'.append hx))), he⟩, fun r' hr' => ?_⟩
    have hmark : ∀ rest, headMark (x ++ tok .«end» l' :: rest) = some m := fun rest => by
      rw [← hhead]
      cases x <;> rfl
    have hnewline : m ≠ .newline := by
      rintro rfl
      simp at hm
    have hthen := hswap' (x ++ tok .«end» l' :: (e ++ r')) (by
      refine ⟨?_, ?_, .inr ⟨m, hm, hmark _⟩⟩
      · simpa using keepsEof_append (u := x) (keepsEof_cons (tok .«end» l') (e ++ _) (e ++ r'))
      · rw [hmark]
        simpa using hnewline)
    rw [← hdrop _ (by rw [hmark]; simpa using hnewline)] at hthen
    have helse := hswap'' r' hr'
    rw [List.append_assoc, List.cons_append] at helse
    simpa only [List.append_assoc, List.cons_append] using
      Derives.conditional ht (hswap _ (keepsEof_cons _ _ _)) hthen helse
  | branchElif hlt _ ih =>
    obtain ⟨used, heq, ⟨t, x, e, l, l', rfl, hx, he⟩, hswap⟩ := ih hlt
    cases heq
    exact ⟨_, rfl, ⟨tok .elif _ :: x, e, l', rfl,
      Balanced.cons rfl (hx.mono (by omega)), he, .elif, by simp, rfl⟩,
      fun r' hr' => .branchElif hlt (hswap r' hr')⟩
  | @branchElse _ _ _ l₀ l₁ l₂ _ _ _ _ hend ih =>
    obtain ⟨u, heq, hu, hswap⟩ := ih hd
    obtain ⟨b, hb, rfl, hdrop⟩ := dropNewlines_swap heq
    obtain ⟨e, rfl, he, hend'⟩ := hend.swap
    refine ⟨(tok .«else» l₀ :: tok .newline l₁ :: (b ++ u)) ++ tok .«end» l₂ :: e, by simp,
      ⟨_, e, l₂, rfl, Balanced.cons rfl (balanced_newline ((hb.balanced _).append hu)), he,
        .«else», by simp, rfl⟩, fun r' hr' => ?_⟩
    have hbody := hswap (tok .«end» l₂ :: (e ++ r')) (follows_tok (by simp) _ _ _ _)
    rw [← hdrop _ (headMark_tok (by decide))] at hbody
    simpa only [List.append_assoc, List.cons_append] using
      Derives.branchElse hbody (hend' r' hr')
  | @branchNone _ _ l _ _ hend =>
    obtain ⟨e, rfl, he, hend'⟩ := hend.swap
    exact ⟨tok .«end» l :: e, rfl, ⟨[], e, l, rfl, (inner_nil _).toBalanced (Nat.le_refl _), he,
      .«end», by simp, rfl⟩, fun r' hr' => .branchNone (hend' r' hr')⟩
  | programNil =>
    exact ⟨[], rfl, (inner_nil _).toBalanced (Nat.le_refl _), fun r' hr' => .programNil hr'⟩
  | programCons _ _ ih ih' =>
    obtain ⟨u, rfl, hu, hswap⟩ := ih hd
    obtain ⟨u', heq, hu', hswap'⟩ := ih' hd
    obtain ⟨b, hb, rfl, hdrop⟩ := dropNewlines_swap heq
    refine ⟨u ++ (b ++ u'), by simp, hu.balanced.append ((hb.balanced _).append hu'),
      fun r' hr' => ?_⟩
    have hrest := hswap' r' hr'
    rw [← hdrop r' (by rw [show headMark r' = _ from hr']; nofun)] at hrest
    simpa only [List.append_assoc] using
      Derives.programCons (hswap _ (keepsEof_append (keepsEof_append fun _ => hr'))) hrest

/-! ## Line breaks of a program -/

/-- No `Eof` stands among the tokens. -/
def NoEof (ts : List Spanned) : Prop := ∀ t ∈ ts, t.token.mark? ≠ some .eof

/-- The first statements of a program stand before a line break, the others after it. -/
def SplitsAt (d : Nat) (f : Bool) (stmts : Program) (before after r : List Spanned) : Prop :=
  ∃ read more, stmts = read ++ more ∧
    (∀ r', headMark r' = some .eof →
      Derives d f (.program read) (dropNewlines (before ++ r')) r') ∧
    Derives d f (.program more) (dropNewlines after) r

theorem splitsAt_blank {stmts : Program} {b q : List Spanned} {l : Nat} (hb : Blank b)
    (h : Derives d f (.program stmts) (dropNewlines (b ++ tok .newline l :: q)) r) :
    SplitsAt d f stmts (b ++ [tok .newline l]) q r := by
  have hblank : Blank (b ++ [tok .newline l]) := fun t ht => by
    rcases List.mem_append.1 ht with ht | ht
    · exact hb t ht
    · rw [List.mem_singleton.1 ht]; rfl
  refine ⟨[], stmts, rfl, fun r' hr' => ?_, ?_⟩
  · rw [dropNewlines_blank hblank (by rw [hr']; nofun)]
    exact .programNil hr'
  · have hdrop : dropNewlines (b ++ tok .newline l :: q) = dropNewlines q := by
      rw [dropNewlines, List.dropWhile_append_of_pos fun t ht => by simpa using hb t ht]
      rfl
    rwa [← hdrop]

/-- A line break in blank lines, or after them. -/
theorem blank_or_after {p q ts : List Spanned} {l : Nat}
    (h : p ++ tok .newline l :: q = ts) :
    Blank p ∨ ∃ b p', Blank b ∧ p = b ++ p' ∧ dropNewlines ts = p' ++ tok .newline l :: q ∧
      headMark p' ≠ some .newline ∧ p' ≠ [] := by
  subst h
  induction p with
  | nil => exact .inl fun t ht => absurd ht List.not_mem_nil
  | cons t p ih =>
    by_cases ht : t.token = .mark .newline
    · have hdrop : dropNewlines (t :: p ++ tok .newline l :: q) =
          dropNewlines (p ++ tok .newline l :: q) :=
        List.dropWhile_cons_of_pos (by simp [ht])
      rcases ih with hb | ⟨b, p', hb, rfl, heq, hne⟩
      · refine .inl fun t' ht' => ?_
        rcases List.mem_cons.1 ht' with rfl | ht'
        · exact ht
        · exact hb t' ht'
      · refine .inr ⟨t :: b, p', fun t' ht' => ?_, rfl, by rw [hdrop, heq], hne⟩
        rcases List.mem_cons.1 ht' with rfl | ht'
        · exact ht
        · exact hb t' ht'
    · refine .inr ⟨[], t :: p, by simp [Blank], rfl, ?_, by simpa [headMark, headToken] using ht,
        by simp⟩
      exact List.dropWhile_cons_of_neg (by simpa using ht)

/-- At a line break at depth zero, whole statements of the program have been read. -/
theorem program_break {φ : Phrase} {ts₀ : List Spanned} (h : Derives d f φ ts₀ r)
    (hd : d ≤ maxAstDepth) : ∀ {stmts : Program} {ts p q : List Spanned} {l : Nat},
    φ = .program stmts → ts₀ = dropNewlines ts → ts = p ++ tok .newline l :: q → NoEof p →
    depthAfter p = 0 → SplitsAt d f stmts (p ++ [tok .newline l]) q r := by
  induction h with
  | @programNil _ _ r hr =>
    intro stmts ts p q l hφ hts₀ hts hp _
    rcases blank_or_after hts.symm with hb | ⟨b, p', -, rfl, heq, -, hne⟩
    · cases hφ
      refine splitsAt_blank hb ?_
      rw [← hts, ← hts₀]
      exact .programNil hr
    · -- the program would end before the line break
      obtain ⟨t, p', rfl⟩ := List.exists_cons_of_ne_nil hne
      rw [hts₀, heq] at hr
      exact absurd hr (hp t (by simp))
  | @programCons d f s rest ts₀ mid r hstmt hmore _ ih =>
    intro stmts ts p q l hφ hts₀ hts hp hdepth
    cases hφ
    rcases blank_or_after hts.symm with hb | ⟨b, p', hb, rfl, heq, hhead, hne⟩
    · refine splitsAt_blank hb ?_
      rw [← hts, ← hts₀]
      exact .programCons hstmt hmore
    · obtain ⟨used, rfl, ⟨x, e, rfl, hx, he⟩, hswap⟩ := derives_shaped hstmt hd
      have hdepth' : depthAfter p' = 0 := by
        rw [depthAfter_append, (hb.balanced 0).balanced] at hdepth
        omega
      have hnoEof : NoEof p' := fun t ht => hp t (List.mem_append_right _ ht)
      have hused : x ++ (e ++ mid) = p' ++ tok .newline l :: q := by
        rw [← heq, ← hts₀, List.append_assoc]
      -- the line break does not stand in the first statement, whose depth there is positive
      have hsplit : ∃ a, p' = x ++ a ∧ e ++ mid = a ++ tok .newline l :: q := by
        rcases List.append_eq_append_iff.1 hused with ⟨a, ha, hrest⟩ | ⟨a, ha, hrest⟩
        · exact ⟨a, ha, hrest⟩
        · cases a with
          | nil => exact ⟨[], by simpa using ha.symm, hrest.symm⟩
          | cons t a =>
            obtain ⟨rfl, -⟩ := List.cons.inj hrest
            have hin := (ha ▸ hx.stays).at_break
            omega
      obtain ⟨a, rfl, hrest⟩ := hsplit
      have hfirst (hxne : x ≠ []) (rest' : List Spanned) :
          dropNewlines (b ++ (x ++ rest')) = x ++ rest' :=
        dropNewlines_blank hb (by rw [headMark_append hxne rest' a]; exact hhead)
      rcases he with ⟨rfl, heof⟩ | ⟨l', rfl⟩
      · -- the tokens do not end before the line break
        cases a with
        | nil =>
          obtain rfl : mid = tok .newline l :: q := hrest
          cases heof
        | cons t a =>
          obtain rfl : mid = t :: (a ++ tok .newline l :: q) := hrest
          exact absurd heof (hnoEof t (by simp))
      · cases a with
        | nil =>
          obtain ⟨hl, rfl⟩ := List.cons.inj hrest
          cases hl
          refine ⟨[s], rest, rfl, fun r' hr' => ?_, hmore⟩
          have hblank : dropNewlines r' = r' := dropNewlines_of_headMark (by rw [hr']; nofun)
          have hnil : Derives d f (.program []) (dropNewlines r') r' := by
            rw [hblank]
            exact .programNil hr'
          have hprogram := Derives.programCons (hswap r' fun _ => hr') hnil
          simpa [hfirst (by simpa using hne)] using hprogram
        | cons t a =>
          obtain ⟨rfl, rfl⟩ := List.cons.inj hrest
          have hxne : x ≠ [] := by
            rintro rfl
            exact hhead rfl
          have hdeeper : depthAfter a = 0 := by
            rw [depthAfter_append, depthAfter_cons, hx.balanced] at hdepth'
            simpa [Spanned.depth] using hdepth'
          obtain ⟨read, more, rfl, hread, hafter⟩ := ih hd rfl rfl rfl
            (fun t ht => hnoEof t (by simp [ht])) hdeeper
          refine ⟨s :: read, more, rfl, fun r' hr' => ?_, hafter⟩
          have hkeep : KeepsEof (a ++ tok .newline l :: q) (a ++ tok .newline l :: r') :=
            keepsEof_append (keepsEof_cons _ _ _)
          have hrest := hread r' hr'
          rw [List.append_assoc] at hrest
          have hprogram := Derives.programCons (hswap _ hkeep) hrest
          simpa [hfirst hxne] using hprogram
  | _ =>
    intro stmts ts p q l hφ
    cases hφ

/-! ## Texts -/

variable (parseFloat : String → Option UInt64)

theorem program_ends {φ : Phrase} (h : Derives d f φ ts r) {stmts : Program}
    (hφ : φ = .program stmts) : headMark r = some .eof := by
  induction h generalizing stmts with
  | programNil hr => exact hr
  | programCons _ _ _ ih => exact ih rfl
  | _ => cases hφ

/-- The only `Eof` is the last token. -/
theorem eof_last {tokens p r : List Spanned} {t : Spanned} (hinner : NoEof tokens)
    (heq : tokens ++ [t] = p ++ r) (hr : headMark r = some .eof) :
    r = [] ∨ (r = [t] ∧ p = tokens) := by
  rcases List.append_eq_append_iff.1 heq with ⟨a, rfl, hrest⟩ | ⟨a, rfl, rfl⟩
  · cases a with
    | nil => exact .inr ⟨hrest.symm, by simp⟩
    | cons t' a =>
      obtain ⟨-, hnil⟩ := List.cons.inj hrest
      exact .inl (List.append_eq_nil_iff.1 hnil.symm).2
  · cases a with
    | nil => exact .inr ⟨rfl, by simp⟩
    | cons t' a => exact absurd hr (hinner t' (by simp))

/-- As many blocks are ended as opened in an accepted text, and the depth never leaves the range
between zero and `maxAstDepth`. -/
theorem accepted_balanced {text : List Char} {program : Program}
    (h : parse (tokenize parseFloat text) = .accepted program) :
    Balanced maxAstDepth (tokenize parseFloat text) := by
  obtain ⟨⟨r, hderives⟩, -⟩ := parse_sound (tokenize_oneLine parseFloat text) h
  obtain ⟨used, heq, hused, -⟩ := derives_shaped hderives (Nat.zero_le _)
  obtain ⟨b, hb, hsplit, -⟩ := dropNewlines_swap heq
  obtain ⟨tokens, line, htokens, hinner⟩ := tokenize_eof parseFloat text
  have hbefore : Balanced maxAstDepth (b ++ used) := (hb.balanced _).append hused
  rw [hsplit, ← List.append_assoc]
  rw [hsplit, ← List.append_assoc] at htokens
  rcases eof_last hinner htokens.symm (program_ends hderives rfl) with rfl | ⟨rfl, -⟩
  · rwa [List.append_nil]
  · exact hbefore.append (Balanced.cons rfl ((inner_nil _).toBalanced (Nat.zero_le _)))

end Tsumugi.Syntax
