import Tsumugi.Lang.Ast
import Tsumugi.Lang.Error

/-!
# Values and the canonical errors (`value.rs`, `error.rs`)

A value carries the allocation id of its backing; id 0 is an untracked backing.
A variable cell is an address in the store of the environment, so a function
value holds the addresses it has captured. Values of the bytecode backend are
left out. The canonical errors keep the texts and the message ids of the source.
-/

namespace Tsumugi

/-- `FnDef`. -/
structure FnDef where
  name : String
  params : List String
  body : Block

/-- The address of a shared cell (`SharedValue`). -/
abbrev Addr := Nat

/-- `Value`. `header` and `retain` are the heap tokens of a function instance. -/
inductive Value
  | int (n : Int)
  | float (bits : UInt64)
  | str (id : Nat) (s : String)
  | bool (b : Bool)
  | null
  | list (id : Nat) (items : List Value)
  | dict (id : Nat) (entries : List (String × Value))
  | fn (id : Nat) (defn : FnDef) (captured : List (String × Addr)) (header : Nat)
      (retain : List Nat)
  | error (errorType message : String) (line : Nat)

/-- The entries of a `BTreeMap<String, Value>`, in key order. -/
abbrev Dict := List (String × Value)

namespace Dict

/-- `get`. -/
def get (d : Dict) (key : String) : Option Value := (d.find? (·.1 = key)).map (·.2)

/-- `contains_key`. -/
def containsKey (d : Dict) (key : String) : Bool := d.any (·.1 = key)

/-- `insert`. -/
def insert (key : String) (value : Value) : Dict → Dict
  | [] => [(key, value)]
  | (k, v) :: rest =>
    if key = k then (key, value) :: rest
    else if key < k then (key, value) :: (k, v) :: rest
    else (k, v) :: insert key value rest

end Dict

namespace Value

/-- `Value::str_constant`: an untracked string. -/
def strConstant (s : String) : Value := .str 0 s

/-- `is_truthy`. Both float zeros compare equal to zero. -/
def isTruthy : Value → Bool
  | .bool b => b
  | .null => false
  | .int n => n != 0
  | .float bits => bits != 0 && bits != 0x8000000000000000
  | .str _ s => s != ""
  | .list _ items => !items.isEmpty
  | .dict _ entries => !entries.isEmpty
  | .fn .. | .error .. => true

/-- `type_name`. -/
def typeName : Value → String
  | .int _ => "Int"
  | .float _ => "Float"
  | .str .. => "Str"
  | .bool _ => "Bool"
  | .null => "Null"
  | .list .. => "List"
  | .dict .. => "Dict"
  | .fn .. => "Fn"
  | .error .. => "Error"

mutual

/-- `depth`. -/
def depth : Value → Nat
  | .list _ items => 1 + itemsDepth items
  | .dict _ entries => 1 + entriesDepth entries
  | _ => 0

def itemsDepth : List Value → Nat
  | [] => 0
  | v :: rest => max (depth v) (itemsDepth rest)

def entriesDepth : List (String × Value) → Nat
  | [] => 0
  | (_, v) :: rest => max (depth v) (entriesDepth rest)

end

end Value

namespace Value

mutual

/-- `Display for Value`; `formatFloat` is `format_float` of `determinism.rs`. -/
def display (formatFloat : UInt64 → String) : Value → String
  | .int n => toString n
  | .float bits => formatFloat bits
  | .str _ s => s
  | .bool b => if b then "true" else "false"
  | .null => "null"
  | .list _ items => "[" ++ ", ".intercalate (displayItems formatFloat items) ++ "]"
  | .dict _ entries => "\x7b" ++ ", ".intercalate (displayEntries formatFloat entries) ++ "\x7d"
  | .fn _ defn .. => "<fn " ++ defn.name ++ "(" ++ ", ".intercalate defn.params ++ ")>"
  | .error _ message _ => message

/-- `format_value_repr` of each item: a string stands in quotes. -/
def displayItems (formatFloat : UInt64 → String) : List Value → List String
  | [] => []
  | .str _ s :: rest => ("\"" ++ s ++ "\"") :: displayItems formatFloat rest
  | v :: rest => display formatFloat v :: displayItems formatFloat rest

def displayEntries (formatFloat : UInt64 → String) : List (String × Value) → List String
  | [] => []
  | (k, .str _ s) :: rest =>
    ("\"" ++ k ++ "\": \"" ++ s ++ "\"") :: displayEntries formatFloat rest
  | (k, v) :: rest =>
    ("\"" ++ k ++ "\": " ++ display formatFloat v) :: displayEntries formatFloat rest

end

end Value

/-- `MAX_USER_CALL_DEPTH`. -/
def maxUserCallDepth : Nat := 128

/-- `MAX_VALUE_DEPTH`. -/
def maxValueDepth : Nat := 256

/-- `binop_symbol`. -/
def binopSymbol : BinOpKind → String
  | .add => "+"
  | .sub => "-"
  | .mul => "*"
  | .div => "/"
  | .mod => "%"
  | .eq => "=="
  | .notEq => "!="
  | .lt => "<"
  | .gt => ">"
  | .ltEq => "<="
  | .gtEq => ">="
  | .and => "and"
  | .or => "or"

/-- `unaryop_symbol`. -/
def unaryopSymbol : UnaryOpKind → String
  | .neg => "-"
  | .not => "not"

namespace TsumugiError

/-- `runtime_with_message_id`. -/
def runtimeWithMessageId (line : Nat) (kind : ErrorKind) (messageId : Nat) (message : String) :
    TsumugiError := .runtime line message kind [] (some messageId)

def undefinedName (line : Nat) (name : String) : TsumugiError :=
  runtimeWithMessageId line .name 1 s!"未定義の変数または関数: {name}"

def assignUndefined (line : Nat) (name : String) : TsumugiError :=
  runtimeWithMessageId line .name 2 s!"未定義の変数に代入: {name}"

def zeroDivision (line : Nat) : TsumugiError := runtimeWithKind line .zeroDivision "ゼロ除算"

def intOverflow (line : Nat) (operation : String) : TsumugiError :=
  runtimeWithMessageId line .intOverflow 37 s!"整数オーバーフロー: {operation}"

def arithmeticType (line : Nat) (op : BinOpKind) (left right : Value) : TsumugiError :=
  runtimeWithMessageId line .type 3
    s!"演算子 {binopSymbol op} は {left.typeName} と {right.typeName} に適用できません"

def unaryType (line : Nat) (op : UnaryOpKind) (operand : Value) : TsumugiError :=
  runtimeWithMessageId line .type 4
    s!"演算子 {unaryopSymbol op} は {operand.typeName} に適用できません"

def comparisonType (line : Nat) (op : BinOpKind) (left right : Value) : TsumugiError :=
  runtimeWithMessageId line .type 5
    s!"比較演算子 {binopSymbol op} は {left.typeName} と {right.typeName} に適用できません"

def listIndexType (line : Nat) (actual : Value) : TsumugiError :=
  runtimeWithMessageId line .type 6
    s!"List のインデックスは Int である必要があります: {actual.typeName}"

def strIndexType (line : Nat) (actual : Value) : TsumugiError :=
  runtimeWithMessageId line .type 7
    s!"Str のインデックスは Int である必要があります: {actual.typeName}"

def dictKeyType (line : Nat) (actual : Value) : TsumugiError :=
  runtimeWithMessageId line .type 8 s!"Dict のキーは Str である必要があります: {actual.typeName}"

def listIndexOutOfRange (line : Nat) (index : Int) (len : Nat) : TsumugiError :=
  runtimeWithMessageId line .index 13 s!"List のインデックスが範囲外です: {index} (長さ: {len})"

def strIndexOutOfRange (line : Nat) (index : Int) (len : Nat) : TsumugiError :=
  runtimeWithMessageId line .index 14 s!"Str のインデックスが範囲外です: {index} (長さ: {len})"

def indexReadUnsupported (line : Nat) (actual : Value) : TsumugiError :=
  runtimeWithMessageId line .type 9 s!"インデックスアクセスできない型です: {actual.typeName}"

def indexAssignUnsupported (line : Nat) (actual : Value) : TsumugiError :=
  runtimeWithMessageId line .type 10 s!"インデックス代入できない型です: {actual.typeName}"

def notIterable (line : Nat) (actual : Value) : TsumugiError :=
  runtimeWithKind line .iteration s!"反復できない型です: {actual.typeName}"

def notCallable (line : Nat) (actual : Value) : TsumugiError :=
  runtimeWithMessageId line .type 11 s!"呼び出せない型です: {actual.typeName}"

def userArity (line : Nat) (callable : String) (expected actual : Nat) : TsumugiError :=
  runtimeWithMessageId line .argument 15
    s!"{callable} の引数個数が一致しません: 期待 {expected}, 実際 {actual}"

def builtinArity (line : Nat) (builtin : String) (expected actual : Nat) : TsumugiError :=
  runtimeWithMessageId line .argument 16
    s!"{builtin} の引数個数が一致しません: 期待 {expected}, 実際 {actual}"

def hostFunctionArity (line : Nat) (name : String) (actual : Nat) : TsumugiError :=
  runtimeWithMessageId line .argument 18
    s!"{name} の引数個数が契約と一致しません: 実際 {actual}"

def builtinArgType (line : Nat) (builtin : String) (position : Nat) (expected : String)
    (actual : Value) : TsumugiError :=
  runtimeWithMessageId line .builtinType 23
    s!"{builtin} の第 {position} 引数は {expected} である必要があります: {actual.typeName}"

def callbackNotCallable (line : Nat) (builtin : String) (actual : Value) : TsumugiError :=
  runtimeWithMessageId line .type 12
    s!"{builtin} のコールバックは呼び出し可能である必要があります: {actual.typeName}"

def callbackArity (line : Nat) (builtin : String) (actual : Nat) : TsumugiError :=
  runtimeWithMessageId line .argument 19
    s!"{builtin} のコールバック引数個数が一致しません: 期待 1, 実際 {actual}"

def mutationTargetNotVariable (line : Nat) (builtin : String) : TsumugiError :=
  runtimeWithMessageId line .builtinType 24
    s!"{builtin} の第 1 引数には List 変数を指定してください"

def popEmptyList (line : Nat) : TsumugiError :=
  runtimeWithMessageId line .builtinType 25 "pop は空の List には使用できません"

def exitArity (line argCount : Nat) : TsumugiError :=
  runtimeWithMessageId line .argument 21
    s!"exit() は引数0〜1個ですが、{argCount}個渡されました"

def exitCodeOutOfRange (line : Nat) (code : Int) : TsumugiError :=
  runtimeWithMessageId line .argument 20
    s!"exit の終了コードは 0 から 255 の範囲で指定してください: {code}"

def collectionLimit (line requested limit : Nat) : TsumugiError :=
  runtimeWithKind line .collectionLimit
    s!"コレクション要素数が上限を超えました: {requested} (上限: {limit})"

def callDepthLimit (line limit : Nat) : TsumugiError :=
  runtimeWithMessageId line .stackOverflow 27
    s!"スタックオーバーフロー: 再帰が深すぎます (上限: {limit})"

def valueDepthLimit (line : Nat) : TsumugiError :=
  runtimeWithMessageId line .stackOverflow 41
    s!"値のネストが深すぎます (上限: {maxValueDepth})"

def astDepthLimit (line : Nat) : TsumugiError :=
  runtimeWithMessageId line .stackOverflow 28
    s!"ASTのネストが深すぎます (上限: {maxAstDepth})"

def breakOutsideLoop (line : Nat) : TsumugiError :=
  runtimeWithMessageId line .controlFlow 29 "break はループの中でのみ使用できます"

def continueOutsideLoop (line : Nat) : TsumugiError :=
  runtimeWithMessageId line .controlFlow 30 "continue はループの中でのみ使用できます"

def capabilityDenied (line : Nat) (name : String) : TsumugiError :=
  runtimeWithKind line .capability s!"host function の実行が許可されていません: {name}"

def hostAdapterFailed (line : Nat) (name category : String) : TsumugiError :=
  runtimeWithKind line .host s!"host function の実行に失敗しました: {name} ({category})"

def filesystemDenied (line : Nat) : TsumugiError :=
  runtimeWithMessageId line .sandbox 39 "ファイルシステム操作が許可されていません"

def argumentInvalidPath (line : Nat) : TsumugiError :=
  runtimeWithMessageId line .argument 22 "ファイルパスの形式が不正です"

def fileSizeOverflow (line : Nat) : TsumugiError :=
  runtimeWithMessageId line .intOverflow 38 "ファイルサイズを Int で表現できません"

def processExitSignal (line : Nat) : TsumugiError :=
  runtimeWithKind line .processExit "exit() による終了"

def deadlineExceeded (line : Nat) : TsumugiError :=
  runtimeWithKind line .deadlineExceeded "実行 deadline を超過しました"

def cancelled (line : Nat) : TsumugiError :=
  runtimeWithKind line .cancelled "実行がキャンセルされました"

def internal (line : Nat) (message : String) : TsumugiError :=
  runtimeWithKind line .internal s!"内部エラー: {message}"

def internalControl (line : Nat) (message : String) : TsumugiError :=
  runtimeWithKind line .internalControl s!"内部制御エラー: {message}"

end TsumugiError

/-- `validate_program_depth`. -/
def validateProgramDepth (program : Program) : Except TsumugiError Unit :=
  match stmtsExcessiveDepthLine 1 program with
  | some line => .error (.astDepthLimit line)
  | none => .ok ()

/-- `check_element_depth`. -/
def Value.checkElementDepth (v : Value) (line : Nat) : Except TsumugiError Unit :=
  if maxValueDepth ≤ v.depth then .error (.valueDepthLimit line) else .ok ()

end Tsumugi
