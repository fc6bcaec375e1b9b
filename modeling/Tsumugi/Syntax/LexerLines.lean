import Tsumugi.Syntax.LexerLaw

/-!
# The lexer and the lines

No token reaches over a line break, so that the tokens of a text are those of its lines. The
exception is a backslash at the end of a line, which in a string literal of an interpolation
takes the line break with it.

Results:
1. `readToken_break`: a token is read the same whether the text ends or the line does.
2. `tokensFrom_break`: the tokens before a line break are those of the text up to it, and after it
   the lexer starts anew on the next line.
-/

namespace Tsumugi.Syntax

/-! ## Characters -/

theorem dropWhile_break {α : Type} {p : α → Bool} {c : α} (hc : p c = false) (xs ys : List α) :
    (xs ++ c :: ys).dropWhile p = xs.dropWhile p ++ c :: ys := by
  rw [List.dropWhile_append]
  split
  · next h => rw [List.isEmpty_iff.1 h, List.dropWhile_cons_of_neg (by simp [hc]), List.nil_append]
  · rfl

theorem takeWhile_break {α : Type} {p : α → Bool} {c : α} (hc : p c = false) (xs ys : List α) :
    (xs ++ c :: ys).takeWhile p = xs.takeWhile p := by
  induction xs with
  | nil => rw [List.nil_append, List.takeWhile_cons_of_neg (by simp [hc]), List.takeWhile_nil]
  | cons x xs ih =>
    rw [List.cons_append, List.takeWhile_cons, List.takeWhile_cons, ih]

/-- What is read before a line break is followed by it. -/
def beforeBreak {α : Type} (next : List Char) (r : α × List Char) : α × List Char :=
  (r.1, r.2 ++ '\n' :: next)

/-- The text does not end in a backslash. -/
def EndsPlain (text : List Char) : Prop := text.getLast? ≠ some '\\'

theorem EndsPlain.tail {c : Char} {text : List Char} (h : EndsPlain (c :: text)) :
    EndsPlain text := by
  cases text with
  | nil => simp [EndsPlain]
  | cons e rest => simpa [EndsPlain] using h

theorem EndsPlain.suffix {text rest : List Char} (h : EndsPlain text) (hr : rest <:+ text) :
    EndsPlain rest := by
  obtain ⟨before, rfl⟩ := hr
  induction before with
  | nil => exact h
  | cons c before ih => exact ih h.tail

variable (next : List Char)

/-! ## Numbers, strings and names -/

theorem readDigits_break (isFloat : Bool) (text : List Char) :
    readDigits isFloat (text ++ '\n' :: next) =
      ((readDigits isFloat text).1, (readDigits isFloat text).2.1,
        (readDigits isFloat text).2.2 ++ '\n' :: next) := by
  induction text generalizing isFloat with
  | nil => simp [readDigits]
  | cons c rest ih =>
    have hhead : (rest ++ '\n' :: next).head?.any Char.isDigit = rest.head?.any Char.isDigit := by
      cases rest <;> rfl
    rw [List.cons_append, readDigits, readDigits, hhead, ih, ih]
    split_ifs <;> rfl

theorem readNumber_break (parseFloat : String → Option UInt64) (text : List Char) :
    readNumber parseFloat (text ++ '\n' :: next) =
      beforeBreak next (readNumber parseFloat text) := by
  simp only [readNumber, readDigits_break, beforeBreak]

theorem readQuoted_break (s text : List Char) :
    readQuoted s (text ++ '\n' :: next) = beforeBreak next (readQuoted s text) := by
  fun_induction readQuoted s text with
  | case1 s => rw [List.nil_append, readQuoted.eq_def]; rfl
  | case2 s rest => rw [List.cons_append, readQuoted.eq_def]; rfl
  | case3 s rest => rw [List.cons_append, readQuoted.eq_def]; rfl
  | case4 s =>
    -- the line break is no escape, and ends the string by itself
    rw [List.cons_append, List.nil_append, readQuoted.eq_def]
    change readQuoted (s ++ ['\\']) ('\n' :: next) = _
    rw [readQuoted.eq_def]
    rfl
  | case5 s c rest e he _ _ ih =>
    rw [← ih, List.cons_append, readQuoted.eq_def]
    simp [he]
  | case6 s c rest he _ _ ih =>
    rw [← ih, List.cons_append, readQuoted.eq_def]
    simp [he]
  | case7 s c rest h1 h2 h3 ih =>
    rw [← ih, List.cons_append, readQuoted.eq_def]
    simp [h1, h2, h3]

theorem readString_break (text : List Char) :
    readString (text ++ '\n' :: next) = beforeBreak next (readString text) := by
  rw [readString, readString, readQuoted_break]
  rcases readQuoted [] text with ⟨_ | s, rest⟩ <;> rfl

theorem readIdentOrKeyword_break (text : List Char) :
    readIdentOrKeyword (text ++ '\n' :: next) = beforeBreak next (readIdentOrKeyword text) := by
  have hbreak : isNameChar '\n' = false := by decide
  simp only [readIdentOrKeyword, takeWhile_break hbreak, dropWhile_break hbreak, beforeBreak]

theorem readWithEq_break (withEq alone : Token) (text : List Char) :
    readWithEq withEq alone (text ++ '\n' :: next) =
      beforeBreak next (readWithEq withEq alone text) := by
  unfold readWithEq
  cases text with
  | nil => rfl
  | cons c rest =>
    by_cases hc : c = '='
    · subst hc
      rfl
    · simp [beforeBreak, hc]

theorem readSymbol_break (c : Char) (text : List Char) :
    readSymbol c (text ++ '\n' :: next) = beforeBreak next (readSymbol c text) := by
  unfold readSymbol
  split <;> first | rfl | exact readWithEq_break next _ _ _

/-! ## f-strings -/

variable {child : Option (List Char → List Spanned)}

/-- What the loops do with a text they also do with it before a line break. -/
def FMode.Breaks (child : Option (List Char → List Spanned)) (next : List Char) (mode : FMode)
    (text : List Char) : Prop :=
  run child mode (text ++ '\n' :: next) = beforeBreak next (run child mode text)

theorem literal_break (parts : List FStrPart) (lit text : List Char)
    (ih : ∀ mode rest, rest.length < text.length → rest <:+ text →
      FMode.Breaks child next mode rest) :
    FMode.Breaks child next (.literal parts lit) text := by
  unfold FMode.Breaks
  cases text with
  | nil =>
    simp only [List.nil_append, FMode.run]
    rw [readFStringLoop.eq_def]
    rfl
  | cons c rest =>
    simp only [List.cons_append, FMode.run]
    rw [readFStringLoop.eq_def, readFStringLoop.eq_def child parts lit (c :: rest)]
    dsimp only
    split_ifs with h1 h2 h3 h4 h5
    · rfl
    · rfl
    · cases rest with
      | nil => exact ih (.code _ 0 []) [] (by simp) (List.nil_suffix)
      | cons e rest' =>
        simp only [List.cons_append]
        split_ifs with he
        · exact ih (.literal parts _) rest' (Nat.lt_succ_of_lt (Nat.lt_succ_self _)) ⟨[c, e], rfl⟩
        · exact ih (.code _ 0 []) (e :: rest') (by simp) (List.suffix_cons _ _)
    · cases rest with
      | nil => rfl
      | cons e rest' =>
        simp only [List.cons_append]
        split_ifs with he
        · exact ih (.literal parts _) rest' (Nat.lt_succ_of_lt (Nat.lt_succ_self _)) ⟨[c, e], rfl⟩
        · rfl
    · cases rest with
      | nil =>
        simp only [List.nil_append]
        rw [show escape '\n' = none from rfl]
        dsimp only
        rw [readFStringLoop.eq_def]
        rfl
      | cons e rest' =>
        simp only [List.cons_append]
        cases escape e with
        | some e' =>
          exact ih (.literal parts _) rest' (Nat.lt_succ_of_lt (Nat.lt_succ_self _)) ⟨[c, e], rfl⟩
        | none => exact ih (.literal parts _) (e :: rest') (by simp) (List.suffix_cons _ _)
    · exact ih (.literal parts _) rest (by simp) (List.suffix_cons _ _)

theorem code_break (parts : List FStrPart) (depth : Nat) (expr text : List Char)
    (ih : ∀ mode rest, rest.length < text.length → rest <:+ text →
      FMode.Breaks child next mode rest) :
    FMode.Breaks child next (.code parts depth expr) text := by
  unfold FMode.Breaks
  match text with
  | [] =>
    simp only [List.nil_append, FMode.run]
    rw [readFStringExpr.eq_def]
    rfl
  | c :: rest =>
    have ih' := fun mode => ih mode rest (by simp) (List.suffix_cons _ _)
    simp only [List.cons_append, FMode.run]
    rw [readFStringExpr.eq_def, readFStringExpr.eq_def child parts depth expr (c :: rest)]
    dsimp only
    split_ifs with h1 h2 h3 h4 h5
    · rfl
    · exact ih' (.code parts _ _)
    · cases interpolation child expr with
      | ok tokens => exact ih' (.literal _ [])
      | error message => rfl
    · exact ih' (.code parts _ _)
    · exact ih' (.quoted parts _ _)
    · exact ih' (.code parts _ _)

theorem quoted_break (parts : List FStrPart) (depth : Nat) (expr text : List Char)
    (hplain : EndsPlain text)
    (ih : ∀ mode rest, rest.length < text.length → rest <:+ text →
      FMode.Breaks child next mode rest) :
    FMode.Breaks child next (.quoted parts depth expr) text := by
  unfold FMode.Breaks
  cases text with
  | nil =>
    simp only [List.nil_append, FMode.run]
    rw [readFStringQuoted.eq_def]
    rfl
  | cons c rest =>
    simp only [List.cons_append, FMode.run]
    rw [readFStringQuoted.eq_def, readFStringQuoted.eq_def child parts depth expr (c :: rest)]
    dsimp only
    split_ifs with h1 h2 h3
    · rfl
    · cases rest with
      | nil => exact absurd (by rw [h2]; rfl) hplain
      | cons e rest' =>
        exact ih (.quoted parts _ _) rest' (Nat.lt_succ_of_lt (Nat.lt_succ_self _)) ⟨[c, e], rfl⟩
    · exact ih (.code parts _ _) rest (by simp) (List.suffix_cons _ _)
    · exact ih (.quoted parts _ _) rest (by simp) (List.suffix_cons _ _)

theorem FMode.run_break (mode : FMode) (text : List Char) (hplain : EndsPlain text) :
    Breaks child next mode text := by
  generalize hn : text.length = n
  induction n using Nat.strongRecOn generalizing mode text with
  | ind n ih =>
    have ih' : ∀ mode rest, rest.length < text.length → rest <:+ text →
        Breaks child next mode rest :=
      fun mode rest hlt hr => ih _ (hn ▸ hlt) mode rest (hplain.suffix hr) rfl
    cases mode with
    | literal parts lit => exact literal_break next parts lit text ih'
    | code parts depth expr => exact code_break next parts depth expr text ih'
    | quoted parts depth expr => exact quoted_break next parts depth expr text hplain ih'

/-! ## Tokens -/

variable (child) (parseFloat : String → Option UInt64)

theorem readToken_break (c : Char) (rest : List Char) (hplain : EndsPlain rest) :
    readToken child parseFloat c (rest ++ '\n' :: next) =
      beforeBreak next (readToken child parseFloat c rest) := by
  rw [readToken.eq_def, readToken.eq_def child parseFloat c rest]
  split_ifs with hquote hdigit halpha
  · exact readString_break next rest
  · exact readNumber_break next parseFloat (c :: rest)
  · cases rest with
    | nil =>
      simp only [List.nil_append]
      split_ifs with hf
      · exact absurd hf.2 (by decide)
      · exact readIdentOrKeyword_break next [c]
    | cons e rest' =>
      simp only [List.cons_append]
      split_ifs with hf
      · exact FMode.run_break next (.literal [] []) rest' hplain.tail
      · exact readIdentOrKeyword_break next (c :: e :: rest')
  · exact readSymbol_break next c rest

theorem skipBlank_break (text : List Char) :
    skipBlank (text ++ '\n' :: next) = skipBlank text ++ '\n' :: next := by
  have hspaces : skipSpaces (text ++ '\n' :: next) = skipSpaces text ++ '\n' :: next :=
    dropWhile_break (by decide) text next
  rw [skipBlank, skipBlank, hspaces]
  cases skipSpaces text with
  | nil => rfl
  | cons c rest =>
    simp only [List.cons_append]
    split_ifs
    · exact dropWhile_break (by decide) (c :: rest) next
    · rfl

theorem skipBlank_suffix_tail {text rest : List Char} {c : Char} (h : skipBlank text = c :: rest) :
    rest <:+ text ∧ rest.length < text.length := by
  have hsuffix := skipBlank_suffix text
  rw [h] at hsuffix
  exact ⟨(List.suffix_cons _ _).trans hsuffix, hsuffix.length_le⟩

omit next in
/-- At the line break, at one before it, or at a token before it. -/
theorem nextToken_break (text : List Char) (line : Nat) (hplain : EndsPlain text) :
    (nextToken child parseFloat text line = (.mk (.mark .eof) line, [], line) ∧
      ∀ next, nextToken child parseFloat (text ++ '\n' :: next) line =
        (.mk (.mark .newline) line, next, line + 1)) ∨
      ∃ t rest line', t.token.mark? ≠ some .eof ∧ rest <:+ text ∧ rest.length < text.length ∧
        nextToken child parseFloat text line = (t, rest, line') ∧
        ∀ next, nextToken child parseFloat (text ++ '\n' :: next) line =
          (t, rest ++ '\n' :: next, line') := by
  cases htext : skipBlank text with
  | nil =>
    refine .inl ⟨by rw [nextToken, htext], fun next => ?_⟩
    rw [nextToken, skipBlank_break, htext]
    rfl
  | cons c rest =>
    have hrest := skipBlank_suffix_tail htext
    refine .inr ?_
    by_cases hc : c = '\n'
    · subst hc
      refine ⟨.mk (.mark .newline) line, rest, line + 1, by simp [Token.mark?], hrest.1, hrest.2,
        by rw [nextToken, htext]; rfl, fun next => ?_⟩
      rw [nextToken, skipBlank_break, htext]
      rfl
    · have hshort := readToken_suffix child parseFloat c rest
      refine ⟨.mk (readToken child parseFloat c rest).1 line, (readToken child parseFloat c rest).2,
        line, fun heof => readToken_inner child parseFloat c rest (.inr heof),
        hshort.trans hrest.1, Nat.lt_of_le_of_lt hshort.length_le hrest.2, ?_, fun next => ?_⟩
      · rw [nextToken, htext]
        simp only [hc, if_false]
      · have hread := readToken_break next child parseFloat c rest (hplain.suffix hrest.1)
        rw [nextToken, skipBlank_break, htext]
        simp only [List.cons_append, hc, if_false, hread, beforeBreak]

/-- More rounds than there are characters make no difference. -/
theorem tokenizeLoop_fuel : ∀ (fuel fuel' : Nat) (text : List Char) (line : Nat),
    text.length < fuel → text.length < fuel' →
    tokenizeLoop child parseFloat fuel text line = tokenizeLoop child parseFloat fuel' text line
  | 0, _, _, _, h, _ => absurd h (Nat.not_lt_zero _)
  | _, 0, _, _, _, h => absurd h (Nat.not_lt_zero _)
  | fuel + 1, fuel' + 1, text, line, h, h' => by
    rw [tokenizeLoop, tokenizeLoop]
    dsimp only
    split_ifs with heof
    · rfl
    · have hless := nextToken_shorter child parseFloat heof
      rw [tokenizeLoop_fuel fuel fuel' _ _ (Nat.lt_of_lt_of_le hless (Nat.le_of_lt_succ h))
        (Nat.lt_of_lt_of_le hless (Nat.le_of_lt_succ h'))]

/-- The tokens of a text from a line on. -/
def tokensFrom (text : List Char) (line : Nat) : List Spanned :=
  tokenizeLoop child parseFloat (text.length + 1) text line

theorem tokensFrom_step {t : Spanned} {text rest : List Char} {line line' : Nat}
    (hnext : nextToken child parseFloat text line = (t, rest, line'))
    (ht : t.token.mark? ≠ some .eof) :
    tokensFrom child parseFloat text line = t :: tokensFrom child parseFloat rest line' := by
  have hmore : (nextToken child parseFloat text line).1.token.mark? ≠ some .eof := by rwa [hnext]
  have hless := nextToken_shorter child parseFloat hmore
  rw [hnext] at hless
  rw [tokensFrom, tokenizeLoop, hnext]
  dsimp only
  rw [if_neg ht]
  exact congrArg (t :: ·) (tokenizeLoop_fuel child parseFloat _ _ _ _ hless (Nat.lt_succ_self _))

omit next in
theorem tokensFrom_eof {text rest : List Char} {line l line' : Nat}
    (hnext : nextToken child parseFloat text line = (.mk (.mark .eof) l, rest, line')) :
    tokensFrom child parseFloat text line = [.mk (.mark .eof) l] := by
  rw [tokensFrom, tokenizeLoop, hnext]
  rfl

omit next in
/-- Up to a line break a text has the tokens that it has alone, and after it come those of the
next line. -/
theorem tokensFrom_break (text : List Char) (line : Nat) (hplain : EndsPlain text) :
    ∃ tokens line', (∀ t ∈ tokens, t.token.mark? ≠ some .eof) ∧
      tokensFrom child parseFloat text line = tokens ++ [.mk (.mark .eof) line'] ∧
      ∀ next, tokensFrom child parseFloat (text ++ '\n' :: next) line =
        tokens ++ .mk (.mark .newline) line' :: tokensFrom child parseFloat next (line' + 1) := by
  generalize hn : text.length = n
  induction n using Nat.strongRecOn generalizing text line with
  | ind n ih =>
    rcases nextToken_break child parseFloat text line hplain with
      ⟨heof, hbreak⟩ | ⟨t, rest, l, ht, hrest, hlt, hnext, hbreak⟩
    · refine ⟨[], line, by simp, tokensFrom_eof child parseFloat heof, fun next => ?_⟩
      exact tokensFrom_step child parseFloat (hbreak next) nofun
    · obtain ⟨tokens, line', htokens, halone, hbefore⟩ :=
        ih _ (hn ▸ hlt) rest l (hplain.suffix hrest) rfl
      refine ⟨t :: tokens, line', ?_, ?_, fun next => ?_⟩
      · intro t' ht'
        rcases List.mem_cons.1 ht' with rfl | ht'
        · exact ht
        · exact htokens t' ht'
      · rw [tokensFrom_step child parseFloat hnext ht, halone]
        rfl
      · rw [tokensFrom_step child parseFloat (hbreak next) ht, hbefore]
        rfl

theorem tokenize_tokensFrom (parseFloat : String → Option UInt64) (text : List Char) :
    tokenize parseFloat text =
      tokensFrom (lexerChild parseFloat maxAstDepth) parseFloat text 1 := by
  rw [tokenize, lexer_run]
  rfl

end Tsumugi.Syntax
