import Mathlib.Data.List.Basic
import Marginalis.JsText
import Marginalis.MathMacros

/-!
# Mathematical macros in the browser

The form for the macros checks them before it sends them, on strings of UTF-16 units, and the
browser writes the definitions of the macros before every formula. `validateMathMacros_accepts`
says that the check of the browser and the one of the server accept the same lists.
-/

namespace Marginalis

namespace MathMacroState

open JsText

/-- A macro as the form holds it. -/
structure MathMacroDraft where
  name : JsString
  replacement : JsString
  argumentCount : ℤ
  deriving DecidableEq

/-! The limits of the published contract. -/

def maxMathMacros : ℕ := 64

def maxMathMacroTotalBytes : ℕ := 16384

def maxMathMacroNameCharacters : ℕ := 32

def maxMathMacroReplacementCharacters : ℕ := 512

def maxMathMacroArguments : ℕ := 9

/-! ## One macro -/

def isLetter (n : ℕ) : Bool := decide (65 ≤ n ∧ n ≤ 90 ∨ 97 ≤ n ∧ n ≤ 122)

/-- `/^[A-Za-z]+$/`. -/
def isControlWordName (value : JsString) : Bool :=
  value ≠ [] && value.all fun unit => isLetter unit.toNat

/-- `/\p{Cc}/u`. -/
def isControl (codePoint : ℕ) : Bool :=
  decide (codePoint < 32 ∨ 127 ≤ codePoint ∧ codePoint < 160)

def isReferenceDigit (unit : UInt16) : Bool := decide (49 ≤ unit.toNat ∧ unit.toNat ≤ 57)

/-- The number of matches of `/#([^1-9]|$)/g`. -/
def invalidReferences : JsString → ℕ
  | [] => 0
  | [unit] => if unit = 35 then 1 else 0
  | unit :: next :: rest =>
    if unit = 35 ∧ isReferenceDigit next = false then 1 + invalidReferences rest
    else invalidReferences (next :: rest)

/-- The numbers in the matches of `/#([1-9])/g`. -/
def references : JsString → List ℕ
  | [] => []
  | [_] => []
  | unit :: next :: rest =>
    if unit = 35 ∧ isReferenceDigit next = true then (next.toNat - 48) :: references rest
    else references (next :: rest)

/-- The loop of `safeTexDefinitionReplacement` : the open braces and the backslashes read last. -/
def scanBraces (braceDepth consecutiveBackslashes : ℕ) : List ℕ → Bool
  | [] => braceDepth = 0 && consecutiveBackslashes % 2 = 0
  | character :: rest =>
    if character = 92 then scanBraces braceDepth (consecutiveBackslashes + 1) rest
    else
      let escaped := consecutiveBackslashes % 2 = 1
      if character = 37 ∧ ¬ escaped then false
      else
        let braceDepth := if character = 123 ∧ ¬ escaped then braceDepth + 1 else braceDepth
        if character = 125 ∧ ¬ escaped then
          if braceDepth = 0 then false else scanBraces (braceDepth - 1) 0 rest
        else scanBraces braceDepth 0 rest

def safeTexDefinitionReplacement (replacement : JsString) : Bool :=
  scanBraces 0 0 (codePoints replacement)

def validateMathMacro (item : MathMacroDraft) : Option JsString :=
  if isControlWordName item.name = false ∨
      maxMathMacroNameCharacters < (codePoints item.name).length then
    some (ofText ("コマンド名は" ++ toString maxMathMacroNameCharacters ++
      "文字以内の半角英字で入力してください。"))
  else if item.name = ofText "def" then
    some (ofText "コマンド名「def」は数式マクロの定義に使用するため指定できません。")
  else if item.replacement.length = 0 ∨
      maxMathMacroReplacementCharacters < (codePoints item.replacement).length ∨
      (codePoints item.replacement).any isControl = true then
    some (ofText ("置換内容は制御文字を含めず、1文字以上" ++
      toString maxMathMacroReplacementCharacters ++ "文字以内で入力してください。"))
  else if safeTexDefinitionReplacement item.replacement = false then
    some (ofText "置換内容の波括弧を対応させ、%は\\%と記述し、末尾を単独の\\にしないでください。")
  else if item.argumentCount < 0 ∨ (maxMathMacroArguments : ℤ) < item.argumentCount then
    some (ofText ("引数の数は0から" ++ toString maxMathMacroArguments ++
      "までの整数で入力してください。"))
  else if 0 < invalidReferences item.replacement ∨
      (references item.replacement).any (fun n => decide (item.argumentCount < n)) = true then
    some (ofText "コマンド「" ++ item.name ++
      ofText "」の置換内容に、引数の数を超える参照があります。")
  else
    none

/-! ## A list of macros -/

/-- `TextEncoder.encode`. -/
def encode (value : JsString) : List UInt8 := Framing.textBytes (toText value)

def mathMacroBytes (macros : List MathMacroDraft) : ℕ :=
  (macros.map fun item => (encode item.name).length + (encode item.replacement).length).sum

/-- The loop with the names it has met. -/
def validateEach (names : List JsString) : List MathMacroDraft → Option JsString
  | [] => none
  | item :: rest =>
    match validateMathMacro item with
    | some problem => some problem
    | none =>
      if item.name ∈ names then
        some (ofText "コマンド名「" ++ item.name ++ ofText "」が重複しています。")
      else validateEach (item.name :: names) rest

def validateMathMacros (macros : List MathMacroDraft) : Option JsString :=
  if maxMathMacros < macros.length then
    some (ofText ("数式マクロは" ++ toString maxMathMacros ++ "件まで設定できます。"))
  else if maxMathMacroTotalBytes < mathMacroBytes macros then
    some (ofText ("コマンド名と置換内容の合計を" ++ toString maxMathMacroTotalBytes ++
      "バイト以下にしてください。"))
  else
    validateEach [] macros

/-- A value stored by an older version can be one that no definition can hold. -/
def validMathMacroForRendering (item : MathMacroDraft) : Bool :=
  (validateMathMacro item).isNone

/-! ## The definitions before a formula -/

/-- `#1#2…`, one for each argument. -/
def argumentsDeclaration (argumentCount : ℕ) : JsString :=
  (List.range argumentCount).flatMap fun index => ofText ("#" ++ toString (index + 1))

def definition (item : MathMacroDraft) : JsString :=
  ofText "\\def\\" ++ item.name ++ argumentsDeclaration item.argumentCount.toNat ++
    ofText "\x7b" ++ item.replacement ++ ofText "\x7d"

/-- The text of a formula with its delimiters, two units each. -/
def withDefinitions (definitions value : JsString) : JsString :=
  let opening := value.take 2
  let closing := value.drop (value.length - 2)
  opening ++ ofText "\x7b" ++ definitions ++ (value.take (value.length - 2)).drop 2 ++
    ofText "\x7d" ++ closing

/-- The texts of the formulas of an element. -/
def applyMathMacros (formulas : List JsString) (macros : List MathMacroDraft) : List JsString :=
  let applicable := macros.filter validMathMacroForRendering
  if applicable.length = 0 then formulas
  else formulas.map (withDefinitions (applicable.flatMap definition))

end MathMacroState

end Marginalis
