import Mathlib.Data.List.Basic
import Marginalis.MacroAgreement
import Marginalis.TexTokens

/-!
# Macros stay in their definitions

The browser writes the definitions of a user's macros before each formula of the user's notes, and
a reader of a shared note meets the macros of another user. The checks of a macro follow TeX : an
odd number of backslashes is an escape (`InStep`), so what the checks count as an open brace is one
for TeX, and no comment begins. TeX therefore reads the stored definitions one by one and then the
formula as it stands (`math_macros_confined`).
-/

namespace Marginalis

open JsText MathMacroState TexTokens

/-- The categories of TeX, by the number of a character. The reader is MathJax's, which has no
notation `^^` for characters. -/
def texCategory (n : ℕ) : Category :=
  if n = 92 then .escape
  else if n = 123 then .beginGroup
  else if n = 125 then .endGroup
  else if n = 35 then .parameter
  else if n = 37 then .comment
  else if n = 32 ∨ n = 9 then .space
  else if n = 10 ∨ n = 13 then .endOfLine
  else if isLetter n then .letter
  else .other

/-- The tokens of a text inside a formula. -/
def texTokens (value : JsString) : List (Token ℕ) :=
  tokens texCategory (.line .middle) (codePoints value)

def textCodes (text : String) : List ℕ := text.toList.map Char.toNat

/-- The definition that a macro stands for : its name, `#1#2…`, and its replacement. -/
def texDefinition (item : MathMacro) : Definition ℕ where
  name := textCodes item.name
  parameterText :=
    (List.range item.argumentCount).flatMap fun index => [.character 35, .character (49 + index)]
  body := texTokens (ofText item.replacement)

/-- The letters of `def`. -/
def defCommand : List ℕ := [100, 101, 102]

/-- A digit of a declared parameter. -/
def declaredDigit (argumentCount n : ℕ) : Bool := decide (49 ≤ n ∧ n ≤ 48 + argumentCount)

/-! ## What the checks say of the tokens -/

section Checks

variable {n depth backslashes argumentCount : ℕ} {codes : List ℕ} {state : ReadState ℕ}

theorem texCategory_eq_escape : texCategory n = .escape ↔ n = 92 := by
  unfold texCategory
  split_ifs <;> simp_all

theorem texCategory_eq_beginGroup : texCategory n = .beginGroup ↔ n = 123 := by
  unfold texCategory
  split_ifs <;> simp_all

theorem texCategory_eq_endGroup : texCategory n = .endGroup ↔ n = 125 := by
  unfold texCategory
  split_ifs <;> simp_all

theorem texCategory_eq_parameter : texCategory n = .parameter ↔ n = 35 := by
  unfold texCategory
  split_ifs <;> simp_all

theorem texCategory_eq_comment : texCategory n = .comment ↔ n = 37 := by
  unfold texCategory
  split_ifs <;> simp_all

theorem texCategory_letter (h : isLetter n = true) : texCategory n = .letter := by
  have hrange := of_decide_eq_true h
  unfold texCategory
  rw [if_neg (by omega), if_neg (by omega), if_neg (by omega), if_neg (by omega),
    if_neg (by omega), if_neg (by omega), if_neg (by omega), if_pos h]

theorem isPlain_of_eq (h : n = 123 ∨ n = 125 ∨ n = 35 ∨ 49 ≤ n ∧ n ≤ 57) :
    (texCategory n).IsPlain := by
  rcases h with rfl | rfl | rfl | hdigit
  · trivial
  · trivial
  · trivial
  · have hletter : isLetter n = false := decide_eq_false (by omega)
    rw [texCategory, if_neg (by omega), if_neg (by omega), if_neg (by omega), if_neg (by omega),
      if_neg (by omega), if_neg (by omega), if_neg (by omega), if_neg (by simp [hletter])]
    trivial

/-- The reader is in an escape when the number of backslashes read last is odd, and never in a
comment. -/
def InStep : ReadState ℕ → ℕ → Prop
  | .escape, backslashes => backslashes % 2 = 1
  | .comment, _ => False
  | _, backslashes => backslashes % 2 = 0

theorem inStep_of_settled (h : state.Settled) : InStep state 0 := by
  rcases state with place | - | name | -
  · rfl
  · exact absurd h id
  · rfl
  · exact absurd h id

theorem settled_of_inStep (h : InStep state backslashes) (heven : ¬ backslashes % 2 = 1) :
    state.Settled := by
  rcases state with place | - | name | -
  · trivial
  · exact absurd h heven
  · trivial
  · exact absurd h id

theorem eq_escape_of_inStep (h : InStep state backslashes) (hodd : backslashes % 2 = 1) :
    state = .escape := by
  rcases state with place | - | name | -
  · simp only [InStep] at h
    omega
  · rfl
  · simp only [InStep] at h
    omega
  · exact absurd h id

/-- Balanced braces are balanced groups. -/
theorem balanced_of_scanBraces (hscan : scanBraces depth backslashes codes = true)
    (hstate : InStep state backslashes) :
    (read texCategory state codes).2.Settled ∧
      depthAfter texCategory depth (tokens texCategory state codes) = some 0 := by
  induction codes generalizing depth backslashes state with
  | nil =>
    rw [scanBraces, Bool.and_eq_true, decide_eq_true_iff, decide_eq_true_iff] at hscan
    have hsettled := settled_of_inStep hstate (by omega)
    refine ⟨hsettled, ?_⟩
    rw [tokens_nil, hscan.1]
    rcases state with place | - | name | -
    · rfl
    · exact absurd hsettled id
    · rfl
    · exact absurd hsettled id
  | cons n codes ih =>
    rw [tokens_cons, read_cons]
    rw [scanBraces] at hscan
    by_cases hback : n = 92
    · rw [if_pos hback] at hscan
      subst hback
      rw [depthAfter_append fun token => isNeutral_of_mem_step (by decide)]
      refine ih hscan ?_
      rcases state with place | - | name | -
      · exact Nat.succ_mod_two_eq_one_iff.mpr hstate
      · exact Nat.succ_mod_two_eq_zero_iff.mpr hstate
      · exact Nat.succ_mod_two_eq_one_iff.mpr hstate
      · exact absurd hstate id
    · rw [if_neg hback] at hscan
      by_cases hodd : backslashes % 2 = 1
      · have hescape := eq_escape_of_inStep hstate hodd
        simp only [hodd, not_true_eq_false, and_false, if_false] at hscan
        rw [hescape, depthAfter_append fun token => isNeutral_of_mem_step_escape]
        exact ih hscan (inStep_of_settled settled_step_escape)
      · have hsettled := settled_of_inStep hstate hodd
        simp only [hodd, not_false_eq_true, and_true] at hscan
        by_cases hcomment : n = 37
        · simp [hcomment] at hscan
        · rw [if_neg hcomment] at hscan
          have hplain : n = 123 ∨ n = 125 → step texCategory state n =
              (flush state ++ [.character n], .line .middle) :=
            fun h => step_of_isPlain hsettled (isPlain_of_eq (by omega))
          by_cases hopen : n = 123
          · subst hopen
            rw [hplain (Or.inl rfl)]
            dsimp only
            rw [List.append_assoc, depthAfter_append fun token => isNeutral_of_mem_flush,
              List.singleton_append, depthAfter_open rfl]
            exact ih (by simpa using hscan) (inStep_of_settled (settled_line _))
          · by_cases hclose : n = 125
            · subst hclose
              by_cases hdepth : depth = 0
              · simp [hdepth] at hscan
              · rw [hplain (Or.inr rfl)]
                dsimp only
                rw [List.append_assoc, depthAfter_append fun token => isNeutral_of_mem_flush,
                  List.singleton_append, depthAfter_close rfl hdepth]
                exact ih (by simpa [hdepth] using hscan) (inStep_of_settled (settled_line _))
            · rw [depthAfter_append fun token => isNeutral_of_mem_step
                ⟨texCategory_eq_beginGroup.not.mpr hopen, texCategory_eq_endGroup.not.mpr hclose⟩]
              rw [if_neg hclose, if_neg hopen] at hscan
              exact ih hscan (inStep_of_settled (settled_step hsettled
                (texCategory_eq_escape.not.mpr hback) (texCategory_eq_comment.not.mpr hcomment)))

/-- References to declared parameters are parameters before declared digits. -/
theorem parametersDeclared_of_referencesWithin (hcount : argumentCount ≤ 9)
    (hrefs : referencesWithin argumentCount codes = true) :
    parametersDeclared texCategory (declaredDigit argumentCount)
      (tokens texCategory state codes) = true := by
  induction hn : codes.length using Nat.strong_induction_on generalizing codes state with
  | _ length ih =>
    rcases codes with - | ⟨n, rest⟩
    · rcases state with place | - | name | - <;> rfl
    · by_cases hhash : n = 35
      · subst hhash
        rcases rest with - | ⟨digit, rest⟩
        · rw [referencesWithin_hash_nil] at hrefs
          cases hrefs
        · rw [referencesWithin_hash, Bool.and_eq_true, decide_eq_true_iff] at hrefs
          have hrest : ∀ state, parametersDeclared texCategory (declaredDigit argumentCount)
              (tokens texCategory state rest) = true :=
            fun state => ih rest.length (by simp at hn; omega) hrefs.2 rfl
          have hdigit : (texCategory digit).IsPlain := isPlain_of_eq (by omega)
          have hdeclared : declaredDigit argumentCount digit = true := decide_eq_true hrefs.1
          have hline : tokens texCategory (.line .middle) (digit :: rest) =
              .character digit :: tokens texCategory (.line .middle) rest := by
            rw [tokens_cons, step_of_isPlain (settled_line _) hdigit]
            rfl
          by_cases hsettled : state.Settled
          · rw [tokens_cons, step_of_isPlain hsettled (isPlain_of_eq (by omega))]
            dsimp only
            rw [hline, List.append_assoc, List.singleton_append,
              parametersDeclared_append fun b hb => absurd hb character_not_mem_flush,
              parametersDeclared_parameter rfl, hdeclared, hrest]
            rfl
          · rcases state with place | - | name | -
            · exact absurd trivial hsettled
            · have hne : texCategory digit ≠ .parameter :=
                texCategory_eq_parameter.not.mpr (by omega)
              have hescape : step texCategory .escape 35 =
                ([.controlSequence [35]], .line .middle) := rfl
              rw [tokens_cons, hescape]
              dsimp only
              rw [hline, List.append_cons, parametersDeclared_append fun b hb => ?_]
              · exact hrest _
              · have hb : b = digit := by simpa using hb
                rw [hb]
                exact hne
            · exact absurd trivial hsettled
            · have hcomment : step texCategory .comment 35 = ([], .comment) := rfl
              rw [tokens_cons, hcomment, tokens_cons, step_comment_of_isPlain hdigit]
              exact hrest _
      · rw [referencesWithin_cons_of_ne hhash] at hrefs
        rw [tokens_cons, parametersDeclared_append fun b hb => by
          rw [eq_of_character_mem_step hb]
          exact texCategory_eq_parameter.not.mpr hhash]
        exact ih rest.length (by simp at hn; omega) hrefs rfl

end Checks

/-! ## The definitions before a formula -/

section Definitions

variable {item : MathMacro} {macros : List MathMacro}

theorem toString_succ_of_lt {index : ℕ} (h : index < 9) :
    (toString (index + 1)).toList.map Char.toNat = [49 + index] := by
  have hall : ∀ i < 9, (toString (i + 1)).toList.map Char.toNat = [49 + i] := by
    decide
  exact hall index h

theorem codePoints_argumentsDeclaration {argumentCount : ℕ} (h : argumentCount ≤ 9)
    (rest : JsString) :
    codePoints (argumentsDeclaration argumentCount ++ rest) =
      (List.range argumentCount).flatMap (fun index => [35, 49 + index]) ++ codePoints rest := by
  have hlist : ∀ indices : List ℕ, (∀ index ∈ indices, index < 9) →
      codePoints ((indices.flatMap fun index => ofText ("#" ++ toString (index + 1))) ++ rest) =
        indices.flatMap (fun index => [35, 49 + index]) ++ codePoints rest := by
    intro indices hindices
    induction indices with
    | nil => rfl
    | cons index indices ih =>
      rw [List.flatMap_cons, List.append_assoc, codePoints_ofText_append, String.toList_append,
        List.map_append, toString_succ_of_lt (hindices index (by simp)),
        ih fun other ho => hindices other (List.mem_cons_of_mem index ho)]
      rfl
  refine hlist _ fun index hindex => ?_
  have hlt := List.mem_range.mp hindex
  omega

/-- The characters of a definition. -/
theorem codePoints_definition (h : item.argumentCount ≤ 9) (rest : JsString) :
    codePoints (definition (toDraft item) ++ rest) =
      [92, 100, 101, 102, 92] ++ (textCodes item.name ++
        ((List.range item.argumentCount).flatMap (fun index => [35, 49 + index]) ++ [123] ++
          (textCodes item.replacement ++ 125 :: codePoints rest))) := by
  have hcount : (toDraft item).argumentCount.toNat = item.argumentCount := Int.toNat_natCast _
  rw [definition, hcount]
  simp only [List.append_assoc, toDraft]
  rw [codePoints_ofText_append, codePoints_ofText_append, codePoints_argumentsDeclaration h,
    codePoints_ofText_append, codePoints_ofText_append, codePoints_ofText_append]
  rfl

/-- A definition that both checks accept is read as the tokens of the stored one. -/
theorem texTokens_definition (h : Definable item) (rest : JsString) :
    texTokens (definition (toDraft item) ++ rest) =
      .controlSequence defCommand :: .controlSequence (textCodes item.name) ::
        ((texDefinition item).parameterText ++ .character 123 ::
          ((texDefinition item).body ++ .character 125 :: texTokens rest)) := by
  have hcommand : TexTokens.read texCategory (.line .middle) [92, 100, 101, 102, 92] =
      ([.controlSequence defCommand], .escape) := rfl
  have hname : textCodes item.name ≠ [] := by
    rw [textCodes, ne_eq, List.map_eq_nil_iff, String.toList_eq_nil_iff]
    exact h.name_ne
  have hletters : ∀ n ∈ textCodes item.name, texCategory n = .letter := by
    intro n hn
    obtain ⟨c, hc, rfl⟩ := List.mem_map.mp hn
    exact texCategory_letter (h.letters c hc)
  have hplain : ∀ n ∈ (List.range item.argumentCount).flatMap (fun index => [35, 49 + index]) ++
      [123], (texCategory n).IsPlain := by
    intro n hn
    have hle := h.count_le
    refine isPlain_of_eq ?_
    rcases List.mem_append.mp hn with hn | hn
    · obtain ⟨index, hindex, hn⟩ := List.mem_flatMap.mp hn
      have hlt := List.mem_range.mp hindex
      rcases List.mem_pair.mp hn with rfl | rfl <;> omega
    · rw [List.mem_singleton] at hn
      omega
  have hbody : (TexTokens.read texCategory (.line .middle)
      (textCodes item.replacement)).2.Settled :=
    (balanced_of_scanBraces h.braces (inStep_of_settled (settled_line .middle))).1
  have hreplacement : codePoints (ofText item.replacement) = textCodes item.replacement :=
    codePoints_ofText _
  rw [texTokens, codePoints_definition h.count_le, tokens_append, hcommand]
  dsimp only
  rw [tokens_append, read_escape hname hletters]
  dsimp only
  rw [tokens_append, read_word_of_isPlain hplain (by simp)]
  dsimp only
  rw [tokens_append_of_isPlain hbody (isPlain_of_eq (by omega)), texDefinition, texTokens,
    texTokens, hreplacement, List.map_append, List.map_flatMap]
  simp

/-- A body closes the groups it opens. -/
theorem depthAfter_body (h : Definable item) :
    depthAfter texCategory 0 (texDefinition item).body = some 0 := by
  rw [texDefinition, texTokens, codePoints_ofText]
  exact (balanced_of_scanBraces h.braces (inStep_of_settled (settled_line .middle))).2

/-- TeX reads the stored definitions in a row, and then the text behind them. -/
theorem readDefinitions_definitions (h : ∀ item ∈ macros, Definable item) (rest : JsString) :
    readDefinitions texCategory defCommand macros.length
        (texTokens ((macros.map toDraft).flatMap definition ++ rest)) =
      some (macros.map texDefinition, texTokens rest) := by
  induction macros with
  | nil => rfl
  | cons item macros ih =>
    have hitem := h item (by simp)
    have hparameter : ∀ token ∈ (texDefinition item).parameterText,
        opensGroup texCategory token = false := by
      intro token htoken
      have hle := hitem.count_le
      obtain ⟨index, hindex, htoken⟩ := List.mem_flatMap.mp htoken
      have hlt := List.mem_range.mp hindex
      rcases List.mem_pair.mp htoken with rfl | rfl
      · rfl
      · exact decide_eq_false (texCategory_eq_beginGroup.not.mpr (by omega))
    rw [List.length_cons, List.map_cons, List.flatMap_cons, List.append_assoc,
      texTokens_definition hitem, readDefinitions,
        readDefinition_eq rfl rfl hparameter (depthAfter_body hitem),
      Option.bind_some, ih fun other ho => h other (List.mem_cons_of_mem item ho)]
    rfl

end Definitions

/-! ## A formula -/

/-- The text of a formula between its delimiters, two units each. -/
structure Formula where
  opening : JsString
  text : JsString
  closing : JsString
  opening_length : opening.length = 2
  closing_length : closing.length = 2

def Formula.value (formula : Formula) : JsString :=
  formula.opening ++ formula.text ++ formula.closing

/-- What stands before the text of a formula, and what behind it. -/
def macroPrefix (macros : List MathMacro) : JsString :=
  if macros = [] then [] else ofText "\x7b" ++ (macros.map toDraft).flatMap definition

def macroSuffix (macros : List MathMacro) : JsString :=
  if macros = [] then [] else ofText "\x7d"

theorem withDefinitions_value (definitions : JsString) (formula : Formula) :
    withDefinitions definitions formula.value =
      formula.opening ++ (ofText "\x7b" ++ definitions) ++ formula.text ++ ofText "\x7d" ++
        formula.closing := by
  have ho := formula.opening_length
  have hc := formula.closing_length
  have hlength : (formula.opening ++ formula.text ++ formula.closing).length - 2 =
      (formula.opening ++ formula.text).length := by
    simp only [List.length_append]
    omega
  unfold withDefinitions Formula.value
  rw [hlength, List.take_left, List.drop_left, List.append_assoc formula.opening,
    List.take_left' ho, ← List.append_assoc, List.drop_left' ho]

theorem applyMathMacros_map_value {macros : List MathMacro}
    (h : ∀ item ∈ macros, Definable item) (formulas : List Formula) :
    applyMathMacros (formulas.map Formula.value) (macros.map toDraft) =
      formulas.map fun formula => formula.opening ++ macroPrefix macros ++ formula.text ++
        macroSuffix macros ++ formula.closing := by
  have happlicable : (macros.map toDraft).filter validMathMacroForRendering =
      macros.map toDraft := by
    rw [List.filter_eq_self, List.forall_mem_map]
    intro item hitem
    rw [validMathMacroForRendering, validateMathMacro_toDraft.mpr (h item hitem)]
    rfl
  rw [applyMathMacros, happlicable, List.length_map]
  by_cases hnil : macros = []
  · rw [if_pos (by rw [hnil]; rfl)]
    refine List.map_congr_left fun formula _ => ?_
    simp [macroPrefix, macroSuffix, hnil, Formula.value]
  · have hne : macros.length ≠ 0 := by
      rwa [ne_eq, List.length_eq_zero_iff]
    rw [if_neg hne, List.map_map]
    refine List.map_congr_left fun formula _ => ?_
    rw [Function.comp_apply, withDefinitions_value, macroPrefix, macroSuffix, if_neg hnil,
      if_neg hnil]

/-- Before the text of a formula, which stands as it is, comes what TeX reads as an opening brace
and one definition for each stored macro : with its name, with as many parameters as it declares,
and with its replacement as the body, which closes the groups it opens and refers to declared
parameters only. What comes behind the definitions is read as if they were not there. -/
theorem math_macros_confined (macros : List MathMacro) (h : validateMathMacros macros = .ok ())
    (formulas : List Formula) :
    applyMathMacros (formulas.map Formula.value) (macros.map toDraft) =
      formulas.map (fun formula => formula.opening ++ macroPrefix macros ++ formula.text ++
        macroSuffix macros ++ formula.closing) ∧
    (∀ rest, macros ≠ [] → ∃ definitions,
      texTokens (macroPrefix macros ++ rest) = .character 123 :: definitions ∧
      readDefinitions texCategory defCommand macros.length definitions =
        some (macros.map texDefinition, texTokens rest)) ∧
    ∀ item ∈ macros, depthAfter texCategory 0 (texDefinition item).body = some 0 ∧
      parametersDeclared texCategory (declaredDigit item.argumentCount)
        (texDefinition item).body = true := by
  have haccepted := validateMathMacros_eq_ok.mp h
  have hdefinable : ∀ item ∈ macros, Definable item := fun item hitem =>
    storable_and_safe.mp ⟨haccepted.storable item hitem, haccepted.safe item hitem⟩
  refine ⟨applyMathMacros_map_value hdefinable formulas, fun rest hne => ?_, fun item hitem => ?_⟩
  · refine ⟨texTokens ((macros.map toDraft).flatMap definition ++ rest), ?_,
      readDefinitions_definitions hdefinable rest⟩
    rw [macroPrefix, if_neg hne, List.append_assoc, texTokens, codePoints_ofText_append]
    rfl
  · have hitem := hdefinable item hitem
    refine ⟨depthAfter_body hitem, ?_⟩
    rw [texDefinition, texTokens, codePoints_ofText]
    exact parametersDeclared_of_referencesWithin hitem.count_le hitem.references

/-- A macro with an escaped brace, and one that uses it. -/
def normAndUnit : List MathMacro :=
  [⟨"norm", "\\left\\\x7b#1\\right\\\x7d", 1⟩, ⟨"unit", "#1/\\norm\x7b#1\x7d", 1⟩]

/-- The formula with the second macro, in a note. -/
def unitFormula : Formula := ⟨ofText "\\(", ofText "\\unit x", ofText "\\)", rfl, rfl⟩

/-- Both definitions stand before the formula, one after the other, and are read as such. -/
theorem math_macros_confined_norm :
    applyMathMacros [unitFormula.value] (normAndUnit.map toDraft) =
      [unitFormula.opening ++ macroPrefix normAndUnit ++ unitFormula.text ++
        macroSuffix normAndUnit ++ unitFormula.closing] ∧
    ∃ definitions,
      texTokens (macroPrefix normAndUnit ++ unitFormula.text) = .character 123 :: definitions ∧
      readDefinitions texCategory defCommand 2 definitions =
        some (normAndUnit.map texDefinition, texTokens unitFormula.text) := by
  obtain ⟨happlied, hread, -⟩ := math_macros_confined normAndUnit (by decide +kernel) [unitFormula]
  exact ⟨happlied, hread unitFormula.text (List.cons_ne_nil _ _)⟩

end Marginalis
