import Mathlib.Algebra.Ring.Nat
import Tsumugi.Lang.Ast
import Tsumugi.Syntax.Token

/-!
# The lexer (`lexer.rs`)

Each function reads from the characters that are left and returns those after what it has
read. The expressions of an f-string are read by a child lexer; how many children can
still be nested is counted down, and at zero there is none.

`parse_float` is a parameter: the bits of the number, unless the text is not one.
-/

namespace Tsumugi.Syntax

/-! ## Blanks -/

/-- The blanks within a line. -/
def isBlank (c : Char) : Bool := c = ' ' || c = '\t' || c = '\r'

/-- `skip_spaces`. -/
def skipSpaces (text : List Char) : List Char := text.dropWhile isBlank

/-- `skip_comment`. -/
def skipComment (text : List Char) : List Char := text.dropWhile (· ≠ '\n')

/-- What `next_token` skips before a token. After a comment comes a line break or the end,
so that its second round skips nothing. -/
def skipBlank (text : List Char) : List Char :=
  match skipSpaces text with
  | [] => []
  | c :: rest => if c = '#' then skipComment (c :: rest) else c :: rest

/-! ## Numbers, strings and names -/

/-- `i64::MAX`. -/
def i64Max : Nat := 2 ^ 63 - 1

/-- The number of decimal digits. -/
def decimal (digits : List Char) : Nat :=
  digits.foldl (fun n c => 10 * n + (c.toNat - '0'.toNat)) 0

/-- The loop of `read_number`: the characters, whether there is a point, and the rest. -/
def readDigits : (isFloat : Bool) → List Char → List Char × Bool × List Char
  | isFloat, [] => ([], isFloat, [])
  | isFloat, c :: rest =>
    if c.isDigit then
      let (s, isFloat, rest) := readDigits isFloat rest
      (c :: s, isFloat, rest)
    else if c = '.' ∧ isFloat = false ∧ rest.head?.any Char.isDigit then
      let (s, isFloat, rest) := readDigits true rest
      (c :: s, isFloat, rest)
    else ([], isFloat, c :: rest)

/-- `read_number`. -/
def readNumber (parseFloat : String → Option UInt64) (text : List Char) : Token × List Char :=
  let (s, isFloat, rest) := readDigits false text
  let token :=
    if isFloat then
      match parseFloat (.ofList s) with
      | some bits => .float bits
      | none => .error s!"浮動小数点リテラルが不正です: {String.ofList s}"
    else if decimal s ≤ i64Max then .int (decimal s)
    else .error s!"整数リテラルが範囲外です (最大: {i64Max}): {String.ofList s}"
  (token, rest)

/-- What a backslash and a character stand for. -/
def escape (c : Char) : Option Char :=
  if c = 'n' then some '\n'
  else if c = 't' then some '\t'
  else if c = '\\' then some '\\'
  else if c = '"' then some '"'
  else none

/-- The loop of `read_string`: the text, if the string is closed, and the rest. -/
def readQuoted (s : List Char) : List Char → Option (List Char) × List Char
  | [] => (none, [])
  | c :: rest =>
    if c = '\n' then (none, c :: rest)
    else if c = '"' then (some s, rest)
    else if c = '\\' then
      match rest with
      | [] => (none, [])
      | e :: rest' =>
        match escape e with
        | some e => readQuoted (s ++ [e]) rest'
        | none => readQuoted (s ++ ['\\']) (e :: rest')
    else readQuoted (s ++ [c]) rest

/-- `read_string`, after the opening quote. -/
def readString (text : List Char) : Token × List Char :=
  match readQuoted [] text with
  | (some s, rest) => (.str (.ofList s), rest)
  | (none, rest) => (.error "文字列リテラルが閉じられていません", rest)

/-- The keywords. -/
def keywords : List (String × Mark) :=
  [("let", .«let»), ("fn", .fn), ("return", .«return»), ("if", .«if»), ("else", .«else»),
    ("elif", .elif), ("while", .«while»), ("for", .«for»), ("in", .«in»), ("break", .«break»),
    ("continue", .«continue»), ("end", .«end»), ("and", .and), ("or", .or), ("not", .not),
    ("true", .true), ("false", .false), ("null", .null), ("print", .print),
    ("import", .«import»), ("try", .«try»), ("catch", .«catch»)]

/-- The characters of a name. -/
def isNameChar (c : Char) : Bool := c.isAlphanum || c = '_'

/-- `read_ident_or_keyword`. -/
def readIdentOrKeyword (text : List Char) : Token × List Char :=
  let s := String.ofList (text.takeWhile isNameChar)
  let token :=
    match keywords.lookup s with
    | some m => .mark m
    | none => .ident s
  (token, text.dropWhile isNameChar)

/-- A symbol that may go on with `=`. -/
def readWithEq (withEq alone : Token) (rest : List Char) : Token × List Char :=
  match rest with
  | '=' :: rest => (withEq, rest)
  | rest => (alone, rest)

/-- `read_symbol`, after the character. -/
def readSymbol (c : Char) (rest : List Char) : Token × List Char :=
  match c with
  | '+' => (.mark .plus, rest)
  | '-' => (.mark .minus, rest)
  | '*' => (.mark .star, rest)
  | '/' => (.mark .slash, rest)
  | '%' => (.mark .percent, rest)
  | '(' => (.mark .lParen, rest)
  | ')' => (.mark .rParen, rest)
  | '[' => (.mark .lBracket, rest)
  | ']' => (.mark .rBracket, rest)
  | '{' => (.mark .lBrace, rest)
  | '}' => (.mark .rBrace, rest)
  | ':' => (.mark .colon, rest)
  | ',' => (.mark .comma, rest)
  | '=' => readWithEq (.mark .eq) (.mark .assign) rest
  | '!' => readWithEq (.mark .notEq) (.unknown '!') rest
  | '<' => readWithEq (.mark .ltEq) (.mark .lt) rest
  | '>' => readWithEq (.mark .gtEq) (.mark .gt) rest
  | c => (.unknown c, rest)

/-! ## f-strings -/

/-- The literal of an f-string so far, as a part. -/
def literalPart (literal : List Char) : List FStrPart :=
  if literal.isEmpty then [] else [.literal (.ofList literal)]

/-- The end of `read_fstring_expr`: the tokens of an expression. -/
def interpolation (child : Option (List Char → List Spanned)) (expr : List Char) :
    Except String (List Spanned) :=
  match child with
  | none => .error s!"f-stringのネストが深すぎます (上限: {maxAstDepth})"
  | some tokenize =>
    let tokens := (tokenize expr).filter fun t =>
      t.token.mark? ≠ some .eof ∧ t.token.mark? ≠ some .newline
    if tokens.isEmpty then .error "f-string: 空の式 '\x7b\x7d' は使えません" else .ok tokens

section

variable (child : Option (List Char → List Spanned))

mutual

/-- The loop of `read_fstring`. -/
def readFStringLoop (parts : List FStrPart) (literal : List Char) :
    List Char → Token × List Char
  | [] => (.error "f-stringが閉じられていません", [])
  | c :: rest =>
    if c = '\n' then (.error "f-stringが閉じられていません", c :: rest)
    else if c = '"' then (.fStr (parts ++ literalPart literal), rest)
    else if c = '{' then
      match rest with
      | [] => readFStringExpr (parts ++ literalPart literal) 0 [] []
      | e :: rest' =>
        if e = '{' then readFStringLoop parts (literal ++ ['{']) rest'
        else readFStringExpr (parts ++ literalPart literal) 0 [] (e :: rest')
    else if c = '}' then
      match rest with
      | [] => (.error "f-string: 対応しない '\x7d' があります（'\x7d\x7d' でエスケープしてください）", [c])
      | e :: rest' =>
        if e = '}' then readFStringLoop parts (literal ++ ['}']) rest'
        else
          (.error "f-string: 対応しない '\x7d' があります（'\x7d\x7d' でエスケープしてください）", c :: e :: rest')
    else if c = '\\' then
      match rest with
      | [] => (.error "f-stringが閉じられていません", [])
      | e :: rest' =>
        match escape e with
        | some e => readFStringLoop parts (literal ++ [e]) rest'
        | none => readFStringLoop parts (literal ++ ['\\']) (e :: rest')
    else readFStringLoop parts (literal ++ [c]) rest

/-- The loop of `read_fstring_expr`, and what `read_fstring` does with its result. -/
def readFStringExpr (parts : List FStrPart) (depth : Nat) (expr : List Char) :
    List Char → Token × List Char
  | [] => (.error "f-string: 式が閉じられていません（'\x7d' がありません）", [])
  | c :: rest =>
    if c = '\n' then (.error "f-string: 式が閉じられていません（'\x7d' がありません）", c :: rest)
    else if c = '{' then readFStringExpr parts (depth + 1) (expr ++ [c]) rest
    else if c = '}' then
      if depth = 0 then
        match interpolation child expr with
        | .ok tokens => readFStringLoop (parts ++ [.expr tokens]) [] rest
        | .error message => (.error message, rest)
      else readFStringExpr parts (depth - 1) (expr ++ [c]) rest
    else if c = '"' then readFStringQuoted parts depth (expr ++ [c]) rest
    else readFStringExpr parts depth (expr ++ [c]) rest

/-- The loop of `read_fstring_expr` over a string literal. An escaped character is taken
whatever it is. -/
def readFStringQuoted (parts : List FStrPart) (depth : Nat) (expr : List Char) :
    List Char → Token × List Char
  | [] => (.error "f-string: 式中の文字列リテラルが閉じられていません", [])
  | c :: rest =>
    if c = '\n' then (.error "f-string: 式中の文字列リテラルが閉じられていません", c :: rest)
    else if c = '\\' then
      match rest with
      | [] => (.error "f-string: 式中の文字列リテラルが閉じられていません", [])
      | e :: rest' => readFStringQuoted parts depth (expr ++ [c, e]) rest'
    else if c = '"' then readFStringExpr parts depth (expr ++ [c]) rest
    else readFStringQuoted parts depth (expr ++ [c]) rest

end

/-! ## Tokens -/

variable (parseFloat : String → Option UInt64)

/-- A token that is not a line break, from its first character. -/
def readToken (c : Char) (rest : List Char) : Token × List Char :=
  if c = '"' then readString rest
  else if c.isDigit then readNumber parseFloat (c :: rest)
  else if c.isAlpha ∨ c = '_' then
    match rest with
    | [] => readIdentOrKeyword [c]
    | e :: rest' =>
      if c = 'f' ∧ e = '"' then readFStringLoop child [] [] rest'
      else readIdentOrKeyword (c :: e :: rest')
  else readSymbol c rest

/-- `next_token`: the token, the rest and its line. -/
def nextToken (text : List Char) (line : Nat) : Spanned × List Char × Nat :=
  match skipBlank text with
  | [] => (.mk (.mark .eof) line, [], line)
  | c :: rest =>
    if c = '\n' then (.mk (.mark .newline) line, rest, line + 1)
    else
      let (token, rest) := readToken child parseFloat c rest
      (.mk token line, rest, line)

/-- The loop of `tokenize`, with one more round than there are characters. -/
def tokenizeLoop : (fuel : Nat) → List Char → Nat → List Spanned
  | 0, _, _ => []
  | fuel + 1, text, line =>
    let (spanned, text, line) := nextToken child parseFloat text line
    if spanned.token.mark? = some .eof then [spanned]
    else spanned :: tokenizeLoop fuel text line

end

/-- The lexer that can nest so many children. -/
def lexer (parseFloat : String → Option UInt64) : (children : Nat) → List Char → List Spanned
  | 0, text => tokenizeLoop none parseFloat (text.length + 1) text 1
  | n + 1, text => tokenizeLoop (some (lexer parseFloat n)) parseFloat (text.length + 1) text 1

/-- `Lexer::tokenize`. -/
def tokenize (parseFloat : String → Option UInt64) (text : List Char) : List Spanned :=
  lexer parseFloat maxAstDepth text

end Tsumugi.Syntax
