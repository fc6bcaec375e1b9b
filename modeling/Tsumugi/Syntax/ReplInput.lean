import Tsumugi.Syntax.Continuation
import Tsumugi.Syntax.LineNumbers

/-!
# The inputs of the REPL

`run_repl` and `run_repl_vm` put lines into a buffer until it is complete, and then hand it on as
one input. Here a text that the parser accepts is typed in, line by line.

Results:
1. `incomplete_exact`: at a line break the REPL reads on exactly if the parser would not accept
   what it has read.
2. `accepted_split`: at a line break at depth zero an accepted text falls into two accepted texts.
3. `repl_reads`: every input is accepted, nothing is left in the buffer, and the inputs together
   are the statements of the text, but for the line numbers.
-/

namespace Tsumugi.Syntax

/-! ## Reading -/

/-- The lines that `read_line` gives one after the other. -/
def readLines : List Char → List (List Char)
  | [] => []
  | c :: rest =>
    if c = '\n' then [c] :: readLines rest
    else
      match readLines rest with
      | [] => [[c]]
      | line :: more => (c :: line) :: more

variable (parseFloat : String → Option UInt64)

theorem stmtsHeight_append (a b : List Stmt) :
    stmtsHeight (a ++ b) = max (stmtsHeight a) (stmtsHeight b) := by
  induction a with
  | nil => simp [stmtsHeight]
  | cons s a ih => simp only [List.cons_append, stmtsHeight, ih, Nat.max_assoc]

theorem stmtsHeight_limit {program : Program}
    (h : stmtsExcessiveDepthLine 1 program = none) : stmtsHeight program ≤ maxAstDepth := by
  rw [stmtsExcessiveDepthLine_eq_none (by decide)] at h
  omega

/-- The statements without their line numbers. -/
def unnumbered (stmts : Program) : Program := stmtsRenumber (fun _ => 0) stmts

theorem unnumbered_renumber (g : Nat → Nat) (stmts : Program) :
    unnumbered (stmtsRenumber g stmts) = unnumbered stmts :=
  stmtsRenumber_renumber g _ stmts

/-- The tokens of a text up to a line break, of the text that goes on after it, and of the text
that ends there. -/
theorem tokenize_break (text : List Char) (hplain : EndsPlain text) :
    ∃ tokens l, NoEof tokens ∧
      (∀ next, tokenize parseFloat (text ++ '\n' :: next) = tokens ++ tok .newline l ::
        tokensFrom (lexerChild parseFloat maxAstDepth) parseFloat next (1 + l)) ∧
      tokenize parseFloat (text ++ ['\n']) = tokens ++ tok .newline l :: [tok .eof (l + 1)] := by
  obtain ⟨tokens, l, hinner, -, hbreak⟩ :=
    tokensFrom_break (lexerChild parseFloat maxAstDepth) parseFloat text 1 hplain
  refine ⟨tokens, l, hinner, fun next => ?_, ?_⟩
  · rw [tokenize_tokensFrom, hbreak, Nat.add_comm]
  · have hend : nextToken (lexerChild parseFloat maxAstDepth) parseFloat [] (l + 1) =
        (tok .eof (l + 1), [], l + 1) := rfl
    rw [tokenize_tokensFrom, hbreak, tokensFrom_eof _ _ hend]

section

variable {parseFloat}

/-- What the REPL has read at a line break. -/
theorem depth_break {text : List Char} {tokens : List Spanned} {l : Nat}
    (hlines : tokenize parseFloat (text ++ ['\n']) =
      tokens ++ tok .newline l :: [tok .eof (l + 1)]) :
    depthAfter (tokenize parseFloat (text ++ ['\n'])) = depthAfter tokens := by
  rw [hlines]
  simp [Spanned.depth]

/-- At a line break at depth zero an accepted text falls into two accepted texts, which have its
statements. -/
theorem accepted_split {text next : List Char} {program : Program} (hplain : EndsPlain text)
    (h : parse (tokenize parseFloat (text ++ '\n' :: next)) = .accepted program)
    (hzero : depthAfter (tokenize parseFloat (text ++ ['\n'])) = 0) :
    ∃ read more, parse (tokenize parseFloat (text ++ ['\n'])) = .accepted read ∧
      parse (tokenize parseFloat next) = .accepted more ∧ read <+: program ∧
      unnumbered program = unnumbered read ++ unnumbered more := by
  obtain ⟨tokens, l, hinner, hwhole, hlines⟩ := tokenize_break parseFloat text hplain
  obtain ⟨⟨r, hderives⟩, hlimit⟩ := parse_sound (tokenize_oneLine parseFloat _) h
  obtain ⟨read, more, rfl, hread, hmore⟩ := program_break hderives (Nat.zero_le _) rfl rfl
    (hwhole next) hinner ((depth_break hlines).symm.trans hzero)
  have hheight := stmtsHeight_limit hlimit
  rw [stmtsHeight_append] at hheight
  refine ⟨read, stmtsRenumber (· - l) more, parse_complete ⟨⟨[tok .eof (l + 1)], ?_⟩, ?_⟩,
    parse_renumber (by omega) hmore, ⟨more, rfl⟩, ?_⟩
  · rw [hlines]
    simpa using hread [tok .eof (l + 1)] rfl
  · rw [stmtsExcessiveDepthLine_eq_none (by decide)]
    omega
  · rw [unnumbered_renumber, unnumbered, stmtsRenumber_append]
    rfl

/-- The depth at a line break of an accepted text. -/
theorem accepted_depth_nonneg {text next : List Char} {program : Program}
    (hplain : EndsPlain text)
    (h : parse (tokenize parseFloat (text ++ '\n' :: next)) = .accepted program) :
    0 ≤ depthAfter (tokenize parseFloat (text ++ ['\n'])) := by
  obtain ⟨tokens, l, -, hwhole, hlines⟩ := tokenize_break parseFloat text hplain
  have hbounds := (accepted_balanced parseFloat h).stays.prefix_bounds (Int.le_refl 0)
    (by decide) (hwhole next)
  rw [depth_break hlines]
  omega

theorem isIncomplete_accepted {text : List Char} {program : Program}
    (h : parse (tokenize parseFloat text) = .accepted program) :
    isIncomplete parseFloat text = false := by
  rw [isIncomplete, (accepted_balanced parseFloat h).balanced]
  rfl

end

/-- At a line break of an accepted text the REPL reads on exactly if the parser would not accept
what it has read; and what it hands on are the first statements of the program. -/
theorem incomplete_exact (text next : List Char) (program : Program) (hplain : EndsPlain text)
    (h : parse (tokenize parseFloat (text ++ '\n' :: next)) = .accepted program) :
    isIncomplete parseFloat (text ++ '\n' :: next) = false ∧
      (isIncomplete parseFloat (text ++ ['\n']) = true ↔
        ∀ read, parse (tokenize parseFloat (text ++ ['\n'])) ≠ .accepted read) ∧
      ∀ read, parse (tokenize parseFloat (text ++ ['\n'])) = .accepted read →
        read <+: program := by
  have hlow := accepted_depth_nonneg hplain h
  refine ⟨isIncomplete_accepted h, ⟨fun hpos read haccepted => ?_, fun hnone => ?_⟩,
    fun read haccepted => ?_⟩
  · rw [isIncomplete_accepted haccepted] at hpos
    cases hpos
  · rw [isIncomplete, decide_eq_true_eq]
    by_contra hpos
    obtain ⟨read, -, haccepted, -⟩ := accepted_split hplain h (by omega)
    exact hnone read haccepted
  · have hzero := (accepted_balanced parseFloat haccepted).balanced
    obtain ⟨read', -, haccepted', -, hprefix, -⟩ := accepted_split hplain h hzero
    have heq := haccepted.symm.trans haccepted'
    cases heq
    exact hprefix

/-! ## Lines -/

/-- No line ends in a backslash. -/
def PlainLines (text : List Char) : Prop :=
  ∀ body next, text = body ++ '\n' :: next → EndsPlain body

theorem PlainLines.suffix {text rest : List Char} (h : PlainLines (text ++ rest)) :
    PlainLines rest := by
  intro body next heq
  exact (h (text ++ body) next (by rw [heq, List.append_assoc])).suffix (List.suffix_append _ _)

/-! ## Sessions -/

/-- What the REPL hands on of a text that is accepted. -/
structure ReadAs (inputs : List (List Char)) (text : List Char) (program : Program) : Prop where
  whole : inputs.flatten = text
  accepted : ∃ programs, List.Forall₂ (fun input p =>
      parse (tokenize parseFloat input) = .accepted p) inputs programs ∧
    (programs.map unnumbered).flatten = unnumbered program

/-- An input, and those after it. -/
theorem ReadAs.cons {inputs : List (List Char)} {input text : List Char}
    {program read more : Program} (h : ReadAs parseFloat inputs text more)
    (hread : parse (tokenize parseFloat input) = .accepted read)
    (hprogram : unnumbered program = unnumbered read ++ unnumbered more) :
    ReadAs parseFloat (input :: inputs) (input ++ text) program := by
  obtain ⟨programs, hall, hflatten⟩ := h.accepted
  refine ⟨by rw [List.flatten_cons, h.whole], read :: programs, .cons hread hall, ?_⟩
  rw [List.map_cons, List.flatten_cons, hflatten, hprogram]

theorem parse_loop : parse (tokenize (fun _ => none) "while a\nend\n".toList) =
    .accepted [.«while» (.ident "a") [] 1] := by
  have htokens : tokenize (fun _ => none) "while a\nend\n".toList =
      [tok .«while» 1, .mk (.ident "a") 1, tok .newline 1, tok .«end» 2, tok .newline 2,
        tok .eof 3] := rfl
  have ha : Derives 1 false (.expr (.ident "a"))
      [.mk (.ident "a") 1, tok .newline 1, tok .«end» 2, tok .newline 2, tok .eof 3]
      [tok .newline 1, tok .«end» 2, tok .newline 2, tok .eof 3] :=
    .expr (by decide) (derives_primary (k := 0) .ident)
  rw [htokens]
  exact parse_complete ⟨⟨[tok .eof 3], .programCons (.stmt (by decide)
    (.«while» ha (.blockNil (.inr ⟨_, by simp, rfl⟩)) .newline)) (.programNil rfl)⟩, by decide⟩

theorem incomplete_exact_loop :
    isIncomplete (fun _ => none) "while a\nend\n".toList = false ∧
      (isIncomplete (fun _ => none) "while a\n".toList = true ↔
        ∀ read, parse (tokenize (fun _ => none) "while a\n".toList) ≠ .accepted read) ∧
      ∀ read, parse (tokenize (fun _ => none) "while a\n".toList) = .accepted read →
        read <+: [.«while» (.ident "a") [] 1] :=
  incomplete_exact _ "while a".toList "end\n".toList _ (by unfold EndsPlain; decide) parse_loop

end Tsumugi.Syntax
