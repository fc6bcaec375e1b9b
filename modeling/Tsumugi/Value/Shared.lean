import Tsumugi.Lang.Error

/-!
# Values with shared backings (`value.rs`)

A value as the functions that only read it see it: strings, lists and dicts carry the
address of their `Rc`, so that two places that share a backing can be told from two
places that hold equal ones. A value is the finite unfolding of its backings. Of a
function only what is compared and shown is kept.
-/

namespace Tsumugi.Shared

/-- `Value`. The entries of a dict are in key order. -/
inductive Value
  | int (n : Int)
  | float (bits : UInt64)
  | str (addr : Nat) (s : String)
  | bool (b : Bool)
  | null
  | list (addr : Nat) (items : List Value)
  | dict (addr : Nat) (entries : List (String × Value))
  | fn (id : Nat) (name : String) (params : List String)
  | vmFn (id : Nat) (name : String) (params : List String)
  | error (errorType message : String) (line : Nat)

namespace Value

section Display

-- `floatToString` is the text the standard library formats an `f64` to.
variable (floatToString : UInt64 → String)

mutual

/-- `Display for Value`; `format_float` formats with `{}`. -/
def display : Value → String
  | .int n => toString n
  | .float bits => floatToString bits
  | .str _ s => s
  | .bool b => toString b
  | .null => "null"
  | .list _ items => "[" ++ ", ".intercalate (itemTexts items) ++ "]"
  | .dict _ entries => "\x7b" ++ ", ".intercalate (entryTexts entries) ++ "\x7d"
  | .fn _ name params => "<fn " ++ name ++ "(" ++ ", ".intercalate params ++ ")>"
  | .vmFn _ name params => "<fn " ++ name ++ "(" ++ ", ".intercalate params ++ ")>"
  | .error _ message _ => message

/-- `format_value_repr` of each item: a string stands in quotes. -/
def itemTexts : List Value → List String
  | [] => []
  | .str _ s :: rest => ("\"" ++ s ++ "\"") :: itemTexts rest
  | v :: rest => display v :: itemTexts rest

def entryTexts : List (String × Value) → List String
  | [] => []
  | (key, .str _ s) :: rest => ("\"" ++ key ++ "\": " ++ ("\"" ++ s ++ "\"")) :: entryTexts rest
  | (key, v) :: rest => ("\"" ++ key ++ "\": " ++ display v) :: entryTexts rest

end

/-- `format_value_repr`. -/
def formatValueRepr : Value → String
  | .str _ s => "\"" ++ s ++ "\""
  | v => display floatToString v

theorem itemTexts_eq (items : List Value) :
    itemTexts floatToString items = items.map (formatValueRepr floatToString) := by
  induction items with
  | nil => simp [itemTexts]
  | cons v rest ih => cases v <;> simp [itemTexts, formatValueRepr, ih]

theorem entryTexts_eq (entries : List (String × Value)) :
    entryTexts floatToString entries =
      entries.map fun e => "\"" ++ e.1 ++ "\": " ++ formatValueRepr floatToString e.2 := by
  induction entries with
  | nil => simp [entryTexts]
  | cons e rest ih =>
    obtain ⟨key, v⟩ := e
    cases v <;> simp [entryTexts, formatValueRepr, ih]

end Display

end Value

end Tsumugi.Shared
