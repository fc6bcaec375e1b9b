import Mathlib.Data.List.Basic

/-!
# Tokens (`token.rs`)

Tokens with their lines. A token without a payload is a `Mark`. The expression parts of
an f-string are token lists of their own.
-/

namespace Tsumugi.Syntax

/-- The variants of `Token` that carry nothing. -/
inductive Mark
  | true | false | null
  | «let» | fn | «return» | «if» | «else» | elif | «while» | «for» | «in» | «break» | «continue»
  | «end» | and | or | not | print | «import» | «try» | «catch»
  | plus | minus | star | slash | percent | assign | eq | notEq | lt | gt | ltEq | gtEq
  | lParen | rParen | lBracket | rBracket | lBrace | rBrace | comma | colon
  | newline | eof
deriving DecidableEq, Repr

mutual

/-- `Token`. A float is kept as its bit pattern. -/
inductive Token
  | int (n : Int)
  | float (bits : UInt64)
  | str (s : String)
  | fStr (parts : List FStrPart)
  | ident (name : String)
  | unknown (c : Char)
  | error (message : String)
  | mark (m : Mark)

/-- `FStrPart`. -/
inductive FStrPart
  | literal (s : String)
  | expr (tokens : List Spanned)

/-- `Spanned`. -/
inductive Spanned
  | mk (token : Token) (line : Nat)

end

namespace Spanned

/-- `token`. -/
def token : Spanned → Token
  | mk token _ => token

/-- `line`. -/
def line : Spanned → Nat
  | mk _ line => line

@[simp] theorem token_mk (token : Token) (line : Nat) : (mk token line).token = token := rfl

@[simp] theorem line_mk (token : Token) (line : Nat) : (mk token line).line = line := rfl

end Spanned

/-- The mark of a token that is one. -/
def Token.mark? : Token → Option Mark
  | .mark m => some m
  | _ => none

@[simp] theorem Token.mark?_eq_some {t : Token} {m : Mark} : t.mark? = some m ↔ t = .mark m := by
  cases t <;> simp [mark?]

end Tsumugi.Syntax
