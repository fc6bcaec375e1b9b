import Tsumugi.Syntax.Lexer

/-!
# The lexer ends

Results:
1. `readToken_suffix`: each token takes characters from the front;
2. `tokenizeLoop_eof`: the rounds suffice, the tokens end in `Eof`;
3. `nesting_tokenize`: the f-strings nest no deeper than `MAX_AST_DEPTH`.
-/

namespace Tsumugi.Syntax

/-! ## The rest of the text -/

theorem skipComment_suffix (text : List Char) : skipComment text <:+ text :=
  List.dropWhile_suffix _

theorem skipBlank_suffix (text : List Char) : skipBlank text <:+ text := by
  have hspaces : skipSpaces text <:+ text := List.dropWhile_suffix _
  unfold skipBlank
  split
  · exact List.nil_suffix
  · next c rest h =>
    rw [h] at hspaces
    split
    · exact (skipComment_suffix _).trans hspaces
    · exact hspaces

theorem readDigits_suffix (isFloat : Bool) (text : List Char) :
    (readDigits isFloat text).2.2 <:+ text := by
  fun_induction readDigits isFloat text with
  | case1 => exact List.suffix_refl _
  | case2 isFloat c rest _ s isFloat' rest' h ih =>
    rw [h] at ih
    exact ih.trans (List.suffix_cons _ _)
  | case3 isFloat c rest _ _ s isFloat' rest' h ih =>
    rw [h] at ih
    exact ih.trans (List.suffix_cons _ _)
  | case4 => exact List.suffix_refl _

theorem readQuoted_suffix (s text : List Char) : (readQuoted s text).2 <:+ text := by
  fun_induction readQuoted s text with
  | case1 => exact List.suffix_refl _
  | case2 => exact List.suffix_refl _
  | case3 => exact List.suffix_cons _ _
  | case4 => exact List.nil_suffix
  | case5 _ e rest _ _ _ _ ih => exact ih.trans ((List.suffix_cons e rest).trans (List.suffix_cons _ _))
  | case6 _ _ _ _ _ _ ih => exact ih.trans (List.suffix_cons _ _)
  | case7 _ _ _ _ _ _ ih => exact ih.trans (List.suffix_cons _ _)

theorem readString_suffix (text : List Char) : (readString text).2 <:+ text := by
  have h := readQuoted_suffix [] text
  rw [readString]
  split <;> next heq => rwa [heq] at h

theorem readWithEq_suffix (withEq alone : Token) (rest : List Char) :
    (readWithEq withEq alone rest).2 <:+ rest := by
  unfold readWithEq
  split
  · exact List.suffix_cons _ _
  · exact List.suffix_refl _

theorem readSymbol_suffix (c : Char) (rest : List Char) : (readSymbol c rest).2 <:+ rest := by
  unfold readSymbol
  split <;> first | exact List.suffix_refl _ | exact readWithEq_suffix _ _ _

/-! ## f-strings

The loops of `read_fstring` and `read_fstring_expr` go from mode to mode. -/

/-- Which loop reads, and what it has read. -/
inductive FMode
  | literal (parts : List FStrPart) (lit : List Char)
  | code (parts : List FStrPart) (depth : Nat) (expr : List Char)
  | quoted (parts : List FStrPart) (depth : Nat) (expr : List Char)

namespace FMode

variable {child : Option (List Char → List Spanned)}

/-- The loop of a mode. -/
def run (child : Option (List Char → List Spanned)) : FMode → List Char → Token × List Char
  | literal parts lit => readFStringLoop child parts lit
  | code parts depth expr => readFStringExpr child parts depth expr
  | quoted parts depth expr => readFStringQuoted child parts depth expr

/-- A round that goes on. -/
inductive Moves (child : Option (List Char → List Spanned)) :
    FMode → List Char → FMode → List Char → Prop
  | leftBrace {parts lit rest} :
      Moves child (literal parts lit) ('{' :: '{' :: rest) (literal parts (lit ++ ['{'])) rest
  | rightBrace {parts lit rest} :
      Moves child (literal parts lit) ('}' :: '}' :: rest) (literal parts (lit ++ ['}'])) rest
  | escaped {parts lit c e rest} (h : escape c = some e) :
      Moves child (literal parts lit) ('\\' :: c :: rest) (literal parts (lit ++ [e])) rest
  | backslash {parts lit c rest} (h : escape c = none) :
      Moves child (literal parts lit) ('\\' :: c :: rest) (literal parts (lit ++ ['\\'])) (c :: rest)
  | char {parts lit c rest} (h : c ∉ ['\n', '"', '{', '}', '\\']) :
      Moves child (literal parts lit) (c :: rest) (literal parts (lit ++ [c])) rest
  | enter {parts lit rest} (h : rest.head? ≠ some '{') :
      Moves child (literal parts lit) ('{' :: rest) (code (parts ++ literalPart lit) 0 []) rest
  | nest {parts depth expr rest} :
      Moves child (code parts depth expr) ('{' :: rest) (code parts (depth + 1) (expr ++ ['{'])) rest
  | unnest {parts depth expr rest} :
      Moves child (code parts (depth + 1) expr) ('}' :: rest) (code parts depth (expr ++ ['}'])) rest
  | leave {parts expr rest tokens} (h : interpolation child expr = .ok tokens) :
      Moves child (code parts 0 expr) ('}' :: rest) (literal (parts ++ [.expr tokens]) []) rest
  | quote {parts depth expr rest} :
      Moves child (code parts depth expr) ('"' :: rest) (quoted parts depth (expr ++ ['"'])) rest
  | codeChar {parts depth expr c rest} (h : c ∉ ['\n', '{', '}', '"']) :
      Moves child (code parts depth expr) (c :: rest) (code parts depth (expr ++ [c])) rest
  | quotedEscape {parts depth expr c rest} :
      Moves child (quoted parts depth expr) ('\\' :: c :: rest)
        (quoted parts depth (expr ++ ['\\', c])) rest
  | unquote {parts depth expr rest} :
      Moves child (quoted parts depth expr) ('"' :: rest) (code parts depth (expr ++ ['"'])) rest
  | quotedChar {parts depth expr c rest} (h : c ∉ ['\n', '\\', '"']) :
      Moves child (quoted parts depth expr) (c :: rest) (quoted parts depth (expr ++ [c])) rest

/-- The last round. -/
inductive Stops (child : Option (List Char → List Spanned)) :
    FMode → List Char → Token × List Char → Prop
  | closed {parts lit rest} :
      Stops child (literal parts lit) ('"' :: rest) (.fStr (parts ++ literalPart lit), rest)
  | atEnd {mode message} : Stops child mode [] (.error message, [])
  | atBreak {mode message rest} : Stops child mode ('\n' :: rest) (.error message, '\n' :: rest)
  | lastBackslash {mode message} : Stops child mode ['\\'] (.error message, [])
  | rightBrace {parts lit message rest} (h : rest.head? ≠ some '}') :
      Stops child (literal parts lit) ('}' :: rest) (.error message, '}' :: rest)
  | refused {parts expr rest message} (h : interpolation child expr = .error message) :
      Stops child (code parts 0 expr) ('}' :: rest) (.error message, rest)

/-- A round takes characters. -/
theorem Moves.suffix {mode mode' : FMode} {text text' : List Char}
    (h : Moves child mode text mode' text') : text' <:+ text ∧ text'.length < text.length := by
  cases h
  case leftBrace => exact ⟨⟨['{', '{'], rfl⟩, by simp only [List.length_cons]; omega⟩
  case rightBrace => exact ⟨⟨['}', '}'], rfl⟩, by simp only [List.length_cons]; omega⟩
  case escaped c _ _ => exact ⟨⟨['\\', c], rfl⟩, by simp only [List.length_cons]; omega⟩
  case quotedEscape c => exact ⟨⟨['\\', c], rfl⟩, by simp only [List.length_cons]; omega⟩
  all_goals exact ⟨List.suffix_cons _ _, Nat.lt_succ_self _⟩

/-- A round goes on or stops. -/
def Rounds (child : Option (List Char → List Spanned)) (mode : FMode) (text : List Char)
    (r : Token × List Char) : Prop :=
  (∃ mode' text', Moves child mode text mode' text' ∧ r = run child mode' text') ∨
    Stops child mode text r

theorem rounds_literal (parts : List FStrPart) (lit text : List Char) :
    Rounds child (literal parts lit) text (readFStringLoop child parts lit text) := by
  match text with
  | [] => exact .inr .atEnd
  | c :: rest =>
    rw [readFStringLoop.eq_def]
    dsimp only
    split_ifs with h1 h2 h3 h4 h5
    · exact .inr (h1 ▸ .atBreak)
    · exact .inr (h2 ▸ .closed)
    · subst h3
      match rest with
      | [] => exact .inl ⟨_, _, .enter (by simp), rfl⟩
      | e :: rest =>
        dsimp only
        split_ifs with he
        · subst he
          exact .inl ⟨_, _, .leftBrace, rfl⟩
        · exact .inl ⟨_, _, .enter (by simpa using he), rfl⟩
    · subst h4
      match rest with
      | [] => exact .inr (.rightBrace (by simp))
      | e :: rest =>
        dsimp only
        split_ifs with he
        · subst he
          exact .inl ⟨_, _, .rightBrace, rfl⟩
        · exact .inr (.rightBrace (by simpa using he))
    · subst h5
      match rest with
      | [] => exact .inr .lastBackslash
      | e :: rest =>
        dsimp only
        split
        · next he => exact .inl ⟨_, _, .escaped he, rfl⟩
        · next he => exact .inl ⟨_, _, .backslash he, rfl⟩
    · exact .inl ⟨_, _, .char (by simp [h1, h2, h3, h4, h5]), rfl⟩

theorem rounds_code (parts : List FStrPart) (depth : Nat) (expr text : List Char) :
    Rounds child (code parts depth expr) text (readFStringExpr child parts depth expr text) := by
  match text with
  | [] => exact .inr .atEnd
  | c :: rest =>
    rw [readFStringExpr]
    split_ifs with h1 h2 h3 h4 h5
    · exact .inr (h1 ▸ .atBreak)
    · subst h2
      exact .inl ⟨_, _, .nest, rfl⟩
    · subst h3 h4
      split
      · next hok => exact .inl ⟨_, _, .leave hok, rfl⟩
      · next herror => exact .inr (.refused herror)
    · subst h3
      obtain ⟨n, rfl⟩ := Nat.exists_eq_succ_of_ne_zero h4
      exact .inl ⟨_, _, .unnest, rfl⟩
    · subst h5
      exact .inl ⟨_, _, .quote, rfl⟩
    · exact .inl ⟨_, _, .codeChar (by simp [h1, h2, h3, h5]), rfl⟩

theorem rounds_quoted (parts : List FStrPart) (depth : Nat) (expr text : List Char) :
    Rounds child (quoted parts depth expr) text
      (readFStringQuoted child parts depth expr text) := by
  match text with
  | [] => exact .inr .atEnd
  | c :: rest =>
    rw [readFStringQuoted.eq_def]
    dsimp only
    split_ifs with h1 h2 h3
    · exact .inr (h1 ▸ .atBreak)
    · subst h2
      match rest with
      | [] => exact .inr .lastBackslash
      | e :: rest => exact .inl ⟨_, _, .quotedEscape, rfl⟩
    · subst h3
      exact .inl ⟨_, _, .unquote, rfl⟩
    · exact .inl ⟨_, _, .quotedChar (by simp [h1, h2, h3]), rfl⟩

variable (child)

theorem run_rounds (mode : FMode) (text : List Char) :
    Rounds child mode text (run child mode text) := by
  cases mode with
  | literal parts lit => exact rounds_literal parts lit text
  | code parts depth expr => exact rounds_code parts depth expr text
  | quoted parts depth expr => exact rounds_quoted parts depth expr text

/-- What holds of the last round, and is handed back from a round to the one before it. -/
theorem run_induction {motive : FMode → List Char → Token × List Char → Prop}
    (hstop : ∀ mode text r, Stops child mode text r → motive mode text r)
    (hmove : ∀ mode text mode' text' r, Moves child mode text mode' text' →
      motive mode' text' r → motive mode text r)
    (mode : FMode) (text : List Char) : motive mode text (run child mode text) := by
  generalize hn : text.length = n
  induction n using Nat.strongRecOn generalizing mode text with
  | ind n ih =>
    rcases run_rounds child mode text with ⟨mode', text', hmoves, hrun⟩ | hstops
    · rw [hrun]
      exact hmove _ _ _ _ _ hmoves (ih _ (hn ▸ hmoves.suffix.2) mode' text' rfl)
    · exact hstop _ _ _ hstops

theorem run_suffix (mode : FMode) (text : List Char) : (run child mode text).2 <:+ text := by
  refine run_induction child (motive := fun _ text r => r.2 <:+ text) ?_ ?_ mode text
  · intro mode text r h
    cases h
    case closed => exact List.suffix_cons _ _
    case atEnd => exact List.suffix_refl _
    case atBreak => exact List.suffix_refl _
    case lastBackslash => exact List.nil_suffix
    case rightBrace => exact List.suffix_refl _
    case refused => exact List.suffix_cons _ _
  · exact fun _ _ _ _ _ hmoves hr => hr.trans hmoves.suffix.1

/-- An f-string, or an error. -/
theorem run_token (mode : FMode) (text : List Char) :
    (∃ parts, (run child mode text).1 = .fStr parts) ∨
      ∃ message, (run child mode text).1 = .error message := by
  refine run_induction child
    (motive := fun _ _ r => (∃ parts, r.1 = .fStr parts) ∨ ∃ message, r.1 = .error message)
    ?_ ?_ mode text
  · intro mode text r h
    cases h
    case closed => exact .inl ⟨_, rfl⟩
    all_goals exact .inr ⟨_, rfl⟩
  · exact fun _ _ _ _ _ _ hr => hr

end FMode

/-! ## Tokens -/

section

variable (child : Option (List Char → List Spanned)) (parseFloat : String → Option UInt64)

theorem readNumber_suffix {c : Char} (hc : c.isDigit = true) (rest : List Char) :
    (readNumber parseFloat (c :: rest)).2 <:+ rest := by
  have h := readDigits_suffix false rest
  rw [readNumber, readDigits, if_pos hc]
  exact h

theorem readIdentOrKeyword_suffix {c : Char} (hc : isNameChar c = true) (rest : List Char) :
    (readIdentOrKeyword (c :: rest)).2 <:+ rest := by
  rw [readIdentOrKeyword]
  dsimp only
  rw [List.dropWhile_cons_of_pos hc]
  exact List.dropWhile_suffix _

theorem isNameChar_of_alpha {c : Char} (h : c.isAlpha = true ∨ c = '_') : isNameChar c = true := by
  rcases h with h | rfl
  · simp [isNameChar, Char.isAlphanum, h]
  · decide

/-- A token takes its first character at least. -/
theorem readToken_suffix (c : Char) (rest : List Char) :
    (readToken child parseFloat c rest).2 <:+ rest := by
  unfold readToken
  split_ifs with hquote hdigit halpha
  · exact readString_suffix rest
  · exact readNumber_suffix parseFloat hdigit rest
  · have hname := isNameChar_of_alpha halpha
    split
    · exact readIdentOrKeyword_suffix hname []
    · next e rest' =>
      split_ifs
      · exact (FMode.run_suffix child (.literal [] []) rest').trans (List.suffix_cons _ _)
      · exact readIdentOrKeyword_suffix hname (e :: rest')
  · exact readSymbol_suffix c rest

/-- The marks that end a line. -/
def Token.EndsLine (t : Token) : Prop := t.mark? = some .newline ∨ t.mark? = some .eof

/-- A token within a line that is no f-string. -/
def Token.Plain (t : Token) : Prop := ¬ t.EndsLine ∧ ∀ parts, t ≠ .fStr parts

theorem plain_mark {m : Mark} (h : m ≠ .newline ∧ m ≠ .eof) : (Token.mark m).Plain :=
  ⟨by simpa [Token.EndsLine, Token.mark?] using h, by simp⟩

theorem plain_error (message : String) : (Token.error message).Plain :=
  ⟨by simp [Token.EndsLine, Token.mark?], by simp⟩

theorem plain_unknown (c : Char) : (Token.unknown c).Plain :=
  ⟨by simp [Token.EndsLine, Token.mark?], by simp⟩

theorem readNumber_plain (text : List Char) : (readNumber parseFloat text).1.Plain := by
  rw [readNumber]
  dsimp only
  split <;> split <;> exact ⟨by simp [Token.EndsLine, Token.mark?], by simp⟩

theorem readString_plain (text : List Char) : (readString text).1.Plain := by
  rw [readString]
  split <;> exact ⟨by simp [Token.EndsLine, Token.mark?], by simp⟩

theorem keywords_inner : ∀ p ∈ keywords, p.2 ≠ .newline ∧ p.2 ≠ .eof := by decide

theorem readIdentOrKeyword_plain (text : List Char) : (readIdentOrKeyword text).1.Plain := by
  rw [readIdentOrKeyword]
  dsimp only
  split
  · next m h =>
    obtain ⟨l₁, l₂, hmem, -⟩ := List.lookup_eq_some_iff.1 h
    have hmem : (String.ofList (text.takeWhile isNameChar), m) ∈ keywords := by
      rw [hmem]
      exact List.mem_append_right _ List.mem_cons_self
    exact plain_mark (keywords_inner _ hmem)
  · exact ⟨by simp [Token.EndsLine, Token.mark?], by simp⟩

theorem readWithEq_plain {withEq alone : Token} (hwith : withEq.Plain) (halone : alone.Plain)
    (rest : List Char) : (readWithEq withEq alone rest).1.Plain := by
  unfold readWithEq
  split
  · exact hwith
  · exact halone

theorem readSymbol_plain (c : Char) (rest : List Char) : (readSymbol c rest).1.Plain := by
  unfold readSymbol
  split <;> first
    | exact plain_mark (by decide)
    | exact plain_unknown _
    | exact readWithEq_plain (plain_mark (by decide)) (plain_mark (by decide)) _
    | exact readWithEq_plain (plain_mark (by decide)) (plain_unknown _) _

/-- A token that is no f-string, or the loop of `read_fstring`. -/
theorem readToken_cases (c : Char) (rest : List Char) :
    (readToken child parseFloat c rest).1.Plain ∨
      ∃ rest', c = 'f' ∧ rest = '"' :: rest' ∧
        readToken child parseFloat c rest = (FMode.literal [] []).run child rest' := by
  rw [readToken.eq_def]
  split_ifs with hquote hdigit halpha
  · exact .inl (readString_plain rest)
  · exact .inl (readNumber_plain parseFloat _)
  · match rest with
    | [] => exact .inl (readIdentOrKeyword_plain _)
    | e :: rest' =>
      dsimp only
      split_ifs with hf
      · exact .inr ⟨rest', hf.1, by rw [hf.2], rfl⟩
      · exact .inl (readIdentOrKeyword_plain _)
  · exact .inl (readSymbol_plain c rest)

/-- Within a line no token ends it. -/
theorem readToken_inner (c : Char) (rest : List Char) :
    ¬ (readToken child parseFloat c rest).1.EndsLine := by
  rcases readToken_cases child parseFloat c rest with h | ⟨rest', -, -, h⟩
  · exact h.1
  · rw [h]
    rcases FMode.run_token child (.literal [] []) rest' with ⟨p, h⟩ | ⟨m, h⟩ <;> rw [h] <;>
      simp [Token.EndsLine, Token.mark?]

/-- At the end of the text, at a line break, or at a token within the line. -/
theorem nextToken_cases (text : List Char) (line : Nat) :
    (skipBlank text = [] ∧ nextToken child parseFloat text line = (.mk (.mark .eof) line, [], line)) ∨
      (∃ rest, skipBlank text = '\n' :: rest ∧
        nextToken child parseFloat text line = (.mk (.mark .newline) line, rest, line + 1)) ∨
      ∃ c rest, skipBlank text = c :: rest ∧ c ≠ '\n' ∧
        nextToken child parseFloat text line = (.mk (readToken child parseFloat c rest).1 line,
          (readToken child parseFloat c rest).2, line) := by
  rw [nextToken]
  split
  · next h => exact .inl ⟨h, rfl⟩
  · next c rest h =>
    split_ifs with hc
    · exact .inr (.inl ⟨rest, hc ▸ h, rfl⟩)
    · exact .inr (.inr ⟨c, rest, h, hc, rfl⟩)

/-- A token that is not `Eof` takes a character. -/
theorem nextToken_shorter {text : List Char} {line : Nat}
    (h : (nextToken child parseFloat text line).1.token.mark? ≠ some .eof) :
    (nextToken child parseFloat text line).2.1.length < text.length := by
  have hblank := (skipBlank_suffix text).length_le
  rcases nextToken_cases child parseFloat text line with
    ⟨-, hnext⟩ | ⟨rest, hskip, hnext⟩ | ⟨c, rest, hskip, -, hnext⟩
  · rw [hnext] at h
    exact absurd rfl h
  · rw [hskip, List.length_cons] at hblank
    rw [hnext]
    exact hblank
  · rw [hskip, List.length_cons] at hblank
    have hle := (readToken_suffix child parseFloat c rest).length_le
    rw [hnext]
    dsimp only
    omega

/-- The rounds suffice: the tokens end in `Eof`, and there is none before. -/
theorem tokenizeLoop_eof : ∀ (fuel : Nat) (text : List Char) (line : Nat), text.length < fuel →
    ∃ tokens line', tokenizeLoop child parseFloat fuel text line
      = tokens ++ [.mk (.mark .eof) line'] ∧ ∀ t ∈ tokens, t.token.mark? ≠ some .eof := by
  intro fuel
  induction fuel with
  | zero => exact fun _ _ h => absurd h (Nat.not_lt_zero _)
  | succ fuel ih =>
    intro text line hfuel
    rw [tokenizeLoop]
    dsimp only
    split_ifs with heof
    · rcases nextToken_cases child parseFloat text line with
        ⟨-, hnext⟩ | ⟨rest, -, hnext⟩ | ⟨c, rest, -, -, hnext⟩ <;> rw [hnext] at heof ⊢
      · exact ⟨[], line, rfl, by simp⟩
      · simp [Token.mark?] at heof
      · exact absurd (.inr heof) (readToken_inner child parseFloat c rest)
    · have hless := nextToken_shorter child parseFloat heof
      obtain ⟨tokens, line', htokens, hinner⟩ := ih (nextToken child parseFloat text line).2.1
        (nextToken child parseFloat text line).2.2 (by omega)
      refine ⟨_ :: tokens, line', by rw [htokens]; rfl, ?_⟩
      intro t ht
      rcases List.mem_cons.1 ht with rfl | ht
      · exact heof
      · exact hinner t ht

end

/-- The child lexer of a lexer. -/
def lexerChild (parseFloat : String → Option UInt64) : Nat → Option (List Char → List Spanned)
  | 0 => none
  | n + 1 => some (lexer parseFloat n)

theorem lexer_run (parseFloat : String → Option UInt64) (children : Nat) (text : List Char) :
    lexer parseFloat children text
      = tokenizeLoop (lexerChild parseFloat children) parseFloat (text.length + 1) text 1 := by
  cases children <;> rfl

/-- `tokenize` comes to the end of the text. -/
theorem tokenize_eof (parseFloat : String → Option UInt64) (text : List Char) :
    ∃ tokens line, tokenize parseFloat text = tokens ++ [.mk (.mark .eof) line] ∧
      ∀ t ∈ tokens, t.token.mark? ≠ some .eof := by
  rw [tokenize, lexer_run]
  exact tokenizeLoop_eof _ parseFloat _ text 1 (Nat.lt_succ_self _)

/-! ## f-strings in f-strings -/

mutual

/-- How deep the f-strings of a token nest. -/
def Token.nesting : Token → Nat
  | .fStr parts => partsNesting parts
  | _ => 0

def partsNesting : List FStrPart → Nat
  | [] => 0
  | .literal _ :: parts => partsNesting parts
  | .expr tokens :: parts => max (tokensNesting tokens + 1) (partsNesting parts)

def tokensNesting : List Spanned → Nat
  | [] => 0
  | .mk token _ :: tokens => max token.nesting (tokensNesting tokens)

end

theorem partsNesting_append (a b : List FStrPart) :
    partsNesting (a ++ b) = max (partsNesting a) (partsNesting b) := by
  induction a with
  | nil => simp [partsNesting]
  | cons part a ih =>
    cases part with
    | literal s => simpa [partsNesting] using ih
    | expr tokens => simp only [List.cons_append, partsNesting, ih, Nat.max_assoc]

theorem partsNesting_literalPart (lit : List Char) : partsNesting (literalPart lit) = 0 := by
  unfold literalPart
  split <;> rfl

theorem tokensNesting_le {tokens : List Spanned} {n : Nat} :
    tokensNesting tokens ≤ n ↔ ∀ t ∈ tokens, t.token.nesting ≤ n := by
  induction tokens with
  | nil => simp [tokensNesting]
  | cons t tokens ih =>
    obtain ⟨token, line⟩ := t
    simp [tokensNesting, Nat.max_le, ih]

section

variable {child : Option (List Char → List Spanned)} {n : Nat}

/-- The children nest less deep. -/
def ChildrenNest (child : Option (List Char → List Spanned)) (n : Nat) : Prop :=
  ∀ tokenize, child = some tokenize → ∀ expr, tokensNesting (tokenize expr) + 1 ≤ n

omit n in
theorem tokensNesting_filter (p : Spanned → Bool) (tokens : List Spanned) :
    tokensNesting (tokens.filter p) ≤ tokensNesting tokens :=
  tokensNesting_le.2 fun t ht => tokensNesting_le.1 (Nat.le_refl _) t (List.mem_of_mem_filter ht)

theorem interpolation_nesting (h : ChildrenNest child n) {expr : List Char}
    {tokens : List Spanned} (hok : interpolation child expr = .ok tokens) :
    tokensNesting tokens + 1 ≤ n := by
  unfold interpolation at hok
  split at hok
  · cases hok
  · next tokenize =>
    dsimp only at hok
    split_ifs at hok
    cases hok
    exact Nat.le_trans (Nat.succ_le_succ (tokensNesting_filter _ _)) (h tokenize rfl expr)

/-- The parts that have been read. -/
def FMode.parts : FMode → List FStrPart
  | .literal parts _ | .code parts _ _ | .quoted parts _ _ => parts

theorem FMode.run_nesting (h : ChildrenNest child n) (mode : FMode) (text : List Char)
    (hparts : partsNesting mode.parts ≤ n) : (run child mode text).1.nesting ≤ n := by
  refine run_induction child
    (motive := fun mode _ r => partsNesting mode.parts ≤ n → r.1.nesting ≤ n) ?_ ?_ mode text hparts
  · intro mode text r hstops hparts
    cases hstops
    case closed =>
      simpa only [FMode.parts, Token.nesting, partsNesting_append, partsNesting_literalPart,
        Nat.max_zero] using hparts
    all_goals exact Nat.zero_le _
  · intro mode text mode' text' r hmoves ih hparts
    refine ih ?_
    cases hmoves
    case leave hok =>
      have hexpr := interpolation_nesting h hok
      simp only [FMode.parts, partsNesting_append, partsNesting, Nat.max_zero] at hparts ⊢
      exact Nat.max_le.2 ⟨hparts, hexpr⟩
    case enter =>
      simpa only [FMode.parts, partsNesting_append, partsNesting_literalPart, Nat.max_zero]
        using hparts
    all_goals exact hparts

variable (parseFloat : String → Option UInt64)

theorem readToken_nesting (h : ChildrenNest child n) (c : Char) (rest : List Char) :
    (readToken child parseFloat c rest).1.nesting ≤ n := by
  rcases readToken_cases child parseFloat c rest with hplain | ⟨rest', -, -, hrun⟩
  · generalize (readToken child parseFloat c rest).1 = t at hplain
    cases t
    case fStr parts => exact absurd rfl (hplain.2 parts)
    all_goals exact Nat.zero_le _
  · rw [hrun]
    exact FMode.run_nesting h _ _ (Nat.zero_le _)

theorem tokenizeLoop_nesting (h : ChildrenNest child n) :
    ∀ (fuel : Nat) (text : List Char) (line : Nat),
      tokensNesting (tokenizeLoop child parseFloat fuel text line) ≤ n := by
  intro fuel
  induction fuel with
  | zero => exact fun _ _ => Nat.zero_le _
  | succ fuel ih =>
    intro text line
    have hnext : (nextToken child parseFloat text line).1.token.nesting ≤ n := by
      rcases nextToken_cases child parseFloat text line with
        ⟨-, hnext⟩ | ⟨rest, -, hnext⟩ | ⟨c, rest, -, -, hnext⟩ <;> rw [hnext]
      · exact Nat.zero_le _
      · exact Nat.zero_le _
      · exact readToken_nesting parseFloat h c rest
    rw [tokenizeLoop]
    dsimp only
    split_ifs
    · exact tokensNesting_le.2 fun t ht => by rwa [List.mem_singleton.1 ht]
    · refine tokensNesting_le.2 fun t ht => ?_
      rcases List.mem_cons.1 ht with rfl | ht
      · exact hnext
      · exact tokensNesting_le.1 (ih _ _) t ht

theorem nesting_lexer : ∀ (children : Nat) (text : List Char),
    tokensNesting (lexer parseFloat children text) ≤ children := by
  intro children
  induction children with
  | zero =>
    intro text
    exact tokenizeLoop_nesting parseFloat (by intro tokenize h; cases h) _ text 1
  | succ children ih =>
    intro text
    refine tokenizeLoop_nesting parseFloat ?_ _ text 1
    intro tokenize h expr
    cases h
    exact Nat.succ_le_succ (ih expr)

/-- The f-strings nest no deeper than the limit. -/
theorem nesting_tokenize (text : List Char) :
    tokensNesting (tokenize parseFloat text) ≤ maxAstDepth :=
  nesting_lexer parseFloat maxAstDepth text

end

end Tsumugi.Syntax
