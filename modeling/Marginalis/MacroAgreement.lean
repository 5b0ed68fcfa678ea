import Mathlib.Data.List.Nodup
import Marginalis.MathMacroState

/-!
# The two checks of the macros agree

The server reads a text by its characters and by its UTF-8 bytes, the browser by its code points
and by its UTF-16 units. Both encodings keep ASCII, and every condition of either check is one on
characters or on ASCII (`referencesWithin_flatMap`, `scanBraces_eq`). A macro is therefore accepted
by both or by neither, and so is a list of macros (`validateMathMacros_agree`).
-/

namespace Marginalis

open AsciiCodes JsText

namespace MathMacroState

/-! ## References to parameters -/

/-- Each `#` is followed by the digit of a declared parameter. -/
def referencesWithin (argumentCount : ℕ) : List ℕ → Bool
  | [] => true
  | n :: rest =>
    if n ≠ 35 then referencesWithin argumentCount rest
    else
      match rest with
      | [] => false
      | digit :: rest =>
        decide (49 ≤ digit ∧ digit ≤ 48 + argumentCount) && referencesWithin argumentCount rest

variable {argumentCount n : ℕ} {l : List ℕ}

theorem referencesWithin_cons_of_ne (h : n ≠ 35) :
    referencesWithin argumentCount (n :: l) = referencesWithin argumentCount l := by
  rw [referencesWithin.eq_def]
  exact if_pos h

theorem referencesWithin_hash_nil : referencesWithin argumentCount [35] = false := by
  simp [referencesWithin]

theorem referencesWithin_hash :
    referencesWithin argumentCount (35 :: n :: l) =
      (decide (49 ≤ n ∧ n ≤ 48 + argumentCount) && referencesWithin argumentCount l) := by
  simp [referencesWithin]

/-- The bytes of the server. -/
theorem validArgumentReferences_eq (bytes : List UInt8) :
    MathMacro.validArgumentReferences argumentCount bytes =
      referencesWithin argumentCount (bytes.map UInt8.toNat) := by
  have hhash : ∀ byte : UInt8, ¬ byte ≠ 35 → byte = 35 := fun byte h => not_not.mp h
  have hnat : (35 : UInt8).toNat = 35 := rfl
  induction bytes using MathMacro.validArgumentReferences.induct argumentCount with
  | case1 => rfl
  | case2 byte rest hne ih =>
    have hn : byte.toNat ≠ 35 := fun h => hne (UInt8.toNat_inj.mp h)
    rw [List.map_cons, referencesWithin_cons_of_ne hn, ← ih,
      MathMacro.validArgumentReferences.eq_def]
    exact if_pos hne
  | case3 byte heq =>
    rw [hhash byte heq]
    rfl
  | case4 byte heq digit rest hlt =>
    rw [hhash byte heq, MathMacro.validArgumentReferences.eq_def]
    simp only [ne_eq, not_true_eq_false, if_false, if_pos hlt]
    rw [List.map_cons, List.map_cons, hnat, referencesWithin_hash,
      decide_eq_false (by omega), Bool.false_and]
  | case5 byte heq digit rest hge hout =>
    rw [hhash byte heq, MathMacro.validArgumentReferences.eq_def]
    simp only [ne_eq, not_true_eq_false, if_false, if_neg hge, if_pos hout]
    rw [List.map_cons, List.map_cons, hnat, referencesWithin_hash,
      decide_eq_false (by omega), Bool.false_and]
  | case6 byte heq digit rest hge hin ih =>
    rw [hhash byte heq, MathMacro.validArgumentReferences.eq_def]
    simp only [ne_eq, not_true_eq_false, if_false, if_neg hge, if_neg hin]
    rw [List.map_cons, List.map_cons, hnat, referencesWithin_hash,
      decide_eq_true (by omega), Bool.true_and, ih]

theorem invalidReferences_cons_of_ne {unit : UInt16} {rest : JsString} (h : unit ≠ 35) :
    invalidReferences (unit :: rest) = invalidReferences rest := by
  rcases rest with - | ⟨next, rest⟩
  · simp [invalidReferences, h]
  · rw [invalidReferences, if_neg (by simp [h])]

theorem references_cons_of_ne {unit : UInt16} {rest : JsString} (h : unit ≠ 35) :
    references (unit :: rest) = references rest := by
  rcases rest with - | ⟨next, rest⟩
  · simp [references]
  · rw [references, if_neg (by simp [h])]

/-- The two searches of the browser. -/
theorem references_eq (hcount : argumentCount ≤ 9) (units : JsString) :
    (invalidReferences units = 0 ∧ ∀ r ∈ references units, r ≤ argumentCount) ↔
      referencesWithin argumentCount (units.map UInt16.toNat) = true := by
  induction hn : units.length using Nat.strong_induction_on generalizing units with
  | _ n ih =>
    rcases units with - | ⟨unit, rest⟩
    · simp [invalidReferences, references, referencesWithin]
    · by_cases hhash : unit = 35
      · subst hhash
        rcases rest with - | ⟨digit, rest⟩
        · simp [invalidReferences, referencesWithin]
        · have hnat : (35 : UInt16).toNat = 35 := rfl
          rw [List.map_cons, List.map_cons, hnat, referencesWithin_hash]
          by_cases hdigit : isReferenceDigit digit = true
          · have hrange := of_decide_eq_true hdigit
            have hne : digit ≠ 35 := by
              rintro rfl
              simp at hrange
            have hrest := ih rest.length (by simp at hn; omega) rest rfl
            rw [invalidReferences, if_neg (by simp [hdigit]), invalidReferences_cons_of_ne hne,
              references, if_pos ⟨rfl, hdigit⟩, Bool.and_eq_true, decide_eq_true_iff, ← hrest,
              List.forall_mem_cons]
            refine ⟨fun h => ⟨by omega, h.1, h.2.2⟩, fun h => ⟨h.2.1, by omega, h.2.2⟩⟩
          · rw [Bool.not_eq_true] at hdigit
            have hrange := of_decide_eq_false hdigit
            rw [invalidReferences, if_pos ⟨rfl, hdigit⟩, decide_eq_false (by omega),
              Bool.false_and]
            simp
      · have hne : unit.toNat ≠ 35 := fun h => hhash (UInt16.toNat_inj.mp h)
        rw [invalidReferences_cons_of_ne hhash, references_cons_of_ne hhash, List.map_cons,
          referencesWithin_cons_of_ne hne]
        exact ih rest.length (by simp at hn; omega) rest rfl

theorem referencesWithin_append (h : ∀ n ∈ l, 128 ≤ n) (rest : List ℕ) :
    referencesWithin argumentCount (l ++ rest) = referencesWithin argumentCount rest := by
  induction l with
  | nil => rfl
  | cons n l ih =>
    have hn := h n (by simp)
    rw [List.cons_append, referencesWithin_cons_of_ne (by omega),
      ih fun m hm => h m (List.mem_cons_of_mem n hm)]

/-- An encoding that keeps ASCII keeps the references. -/
theorem referencesWithin_flatMap {encode : Char → List ℕ} (h : KeepsAscii encode)
    (hcount : argumentCount ≤ 9) (chars : List Char) :
    referencesWithin argumentCount (chars.flatMap encode) =
      referencesWithin argumentCount (chars.map Char.toNat) := by
  induction hn : chars.length using Nat.strong_induction_on generalizing chars with
  | _ n ih =>
    rcases chars with - | ⟨c, rest⟩
    · rfl
    · have hrest := ih rest.length (by simp at hn; omega) rest rfl
      rw [List.flatMap_cons, List.map_cons]
      by_cases hascii : c.toNat < 128
      · rw [h.ascii c hascii, List.singleton_append]
        by_cases hhash : c.toNat = 35
        · rw [hhash]
          rcases rest with - | ⟨d, rest⟩
          · rfl
          · rw [List.flatMap_cons, List.map_cons, referencesWithin_hash]
            have hrest := ih rest.length (by simp at hn; omega) rest rfl
            by_cases hd : d.toNat < 128
            · rw [h.ascii d hd, List.singleton_append, referencesWithin_hash, hrest]
            · obtain ⟨first, others, hfirst⟩ := List.exists_cons_of_ne_nil (h.ne_nil d)
              have habove := h.above d (by omega) first (by rw [hfirst]; simp)
              rw [hfirst, List.cons_append, referencesWithin_hash, decide_eq_false (by omega),
                decide_eq_false (by omega), Bool.false_and, Bool.false_and]
        · rw [referencesWithin_cons_of_ne hhash, referencesWithin_cons_of_ne hhash, hrest]
      · rw [referencesWithin_append (h.above c (by omega)),
          referencesWithin_cons_of_ne (by omega), hrest]

/-! ## Braces -/

theorem scanBraces_eq (chars : List Char) (scan : MathMacro.BraceScan) :
    scanBraces scan.braceDepth scan.consecutiveBackslashes (chars.map Char.toNat) =
      match chars.foldlM MathMacro.BraceScan.step scan with
      | none => false
      | some scan => scan.braceDepth = 0 && scan.consecutiveBackslashes % 2 = 0 := by
  induction chars generalizing scan with
  | nil => rfl
  | cons c chars ih =>
    have hchar : ∀ d : Char, c = d ↔ c.toNat = d.toNat := fun d => Char.toNat_inj.symm
    rw [List.map_cons, scanBraces, List.foldlM_cons, MathMacro.BraceScan.step]
    simp only [hchar, Char.reduceToNat]
    by_cases hback : c.toNat = 92
    · rw [if_pos hback, if_pos hback]
      exact ih ⟨scan.braceDepth, scan.consecutiveBackslashes + 1⟩
    · rw [if_neg hback, if_neg hback]
      by_cases hescaped : scan.consecutiveBackslashes % 2 = 1
      · simp only [hescaped, not_true_eq_false, and_false, if_false]
        exact ih ⟨scan.braceDepth, 0⟩
      · simp only [hescaped, not_false_eq_true, and_true]
        by_cases hcomment : c.toNat = 37
        · simp [hcomment]
        · by_cases hopen : c.toNat = 123
          · simp only [hopen, Nat.reduceEqDiff, if_true, if_false]
            exact ih ⟨scan.braceDepth + 1, 0⟩
          · by_cases hclose : c.toNat = 125
            · by_cases hdepth : scan.braceDepth = 0
              · simp [hclose, hdepth]
              · simp only [hclose, hdepth, Nat.reduceEqDiff, if_true, if_false]
                exact ih ⟨scan.braceDepth - 1, 0⟩
            · simp only [hcomment, hopen, hclose, if_false]
              exact ih ⟨scan.braceDepth, 0⟩

/-! ## One macro -/

/-- The form's value of a macro of the server. -/
def toDraft (item : MathMacro) : MathMacroDraft where
  name := ofText item.name
  replacement := ofText item.replacement
  argumentCount := item.argumentCount

/-- What the server receives of the form's value. -/
def received (item : MathMacroDraft) : MathMacro where
  name := toText item.name
  replacement := toText item.replacement
  argumentCount := item.argumentCount.toNat

variable {item : MathMacro}

theorem ofText_eq_nil {text : String} : ofText text = [] ↔ text = "" := by
  rw [← List.map_eq_nil_iff, map_toNat_ofText, keepsAscii_utf16.flatMap_eq_nil,
    String.toList_eq_nil_iff]

theorem isControlWordName_ofText (text : String) :
    isControlWordName (ofText text) = true ↔ text ≠ "" ∧ ∀ c ∈ text.toList,
      isLetter c.toNat = true := by
  have hletter : ∀ n, isLetter n = true → n < 128 := by
    intro n hn
    have hrange := of_decide_eq_true hn
    omega
  have hunits : (ofText text).all (fun unit => isLetter unit.toNat) = true ↔
      ∀ n ∈ (ofText text).map UInt16.toNat, isLetter n = true := by
    rw [List.all_eq_true, List.forall_mem_map]
  rw [isControlWordName, Bool.and_eq_true, hunits, map_toNat_ofText,
    keepsAscii_utf16.forall_mem_flatMap hletter, decide_eq_true_iff, ne_eq, ofText_eq_nil]

theorem textBytes_letters (text : String) :
    ((Framing.textBytes text).all fun byte =>
      decide (65 ≤ byte.toNat ∧ byte.toNat ≤ 90 ∨ 97 ≤ byte.toNat ∧ byte.toNat ≤ 122)) = true ↔
      ∀ c ∈ text.toList, isLetter c.toNat = true := by
  have hletter : ∀ n, isLetter n = true → n < 128 := by
    intro n hn
    have hrange := of_decide_eq_true hn
    omega
  rw [← keepsAscii_utf8.forall_mem_flatMap hletter, ← List.map_flatMap, ← Framing.textBytes_eq,
    List.forall_mem_map, List.all_eq_true]
  rfl

/-- The bytes of a text refer to declared parameters when its characters do. -/
theorem validArgumentReferences_textBytes (hcount : argumentCount ≤ 9) (text : String) :
    MathMacro.validArgumentReferences argumentCount (Framing.textBytes text) =
      referencesWithin argumentCount (text.toList.map Char.toNat) := by
  rw [validArgumentReferences_eq, Framing.textBytes_eq, List.map_flatMap,
    referencesWithin_flatMap keepsAscii_utf8 hcount]

theorem references_ofText (hcount : argumentCount ≤ 9) (text : String) :
    (invalidReferences (ofText text) = 0 ∧ ∀ r ∈ references (ofText text), r ≤ argumentCount) ↔
      referencesWithin argumentCount (text.toList.map Char.toNat) = true := by
  rw [references_eq hcount, map_toNat_ofText, referencesWithin_flatMap keepsAscii_utf16 hcount]

/-- What both checks require of a macro. -/
structure Definable (item : MathMacro) : Prop where
  name_ne : item.name ≠ ""
  letters : ∀ c ∈ item.name.toList, isLetter c.toNat = true
  name_length : item.name.toList.length ≤ 32
  name_ne_def : item.name ≠ "def"
  replacement_ne : item.replacement ≠ ""
  replacement_length : item.replacement.toList.length ≤ 512
  no_control : item.replacement.toList.any Marginalis.isControl = false
  count_le : item.argumentCount ≤ 9
  references : referencesWithin item.argumentCount (item.replacement.toList.map Char.toNat) = true
  braces : scanBraces 0 0 (item.replacement.toList.map Char.toNat) = true

theorem storable_and_safe : (MathMacro.storable item = true ∧
    MathMacro.safeTexDefinition item.name item.replacement = true) ↔ Definable item := by
  have hsafe : MathMacro.safeTexDefinition item.name item.replacement = true ↔
      item.name ≠ "def" ∧ scanBraces 0 0 (item.replacement.toList.map Char.toNat) = true := by
    rw [scanBraces_eq _ ⟨0, 0⟩, MathMacro.safeTexDefinition]
    by_cases hdef : item.name = "def"
    · simp [hdef]
    · rw [if_neg hdef]
      exact ⟨fun h => ⟨hdef, h⟩, And.right⟩
  rw [hsafe, MathMacro.storable]
  simp only [Bool.and_eq_true, decide_eq_true_iff, textBytes_letters, Bool.not_eq_true']
  refine ⟨fun h => ?_, fun h => ?_⟩
  · obtain ⟨⟨⟨⟨⟨⟨⟨⟨h1, h2⟩, h3⟩, h4⟩, h5⟩, h6⟩, h7⟩, h8⟩, h9, h10⟩ := h
    rw [validArgumentReferences_textBytes h7] at h8
    exact ⟨h1, h3, h2, h9, h4, h5, h6, h7, h8, h10⟩
  · refine ⟨⟨⟨⟨⟨⟨⟨⟨h.name_ne, h.name_length⟩, h.letters⟩, h.replacement_ne⟩,
      h.replacement_length⟩, h.no_control⟩, h.count_le⟩, ?_⟩, h.name_ne_def, h.braces⟩
    rw [validArgumentReferences_textBytes h.count_le]
    exact h.references

theorem ite_some_eq_none {α : Type} {c : Prop} [Decidable c] {a : α} {x : Option α} :
    (if c then some a else x) = none ↔ ¬ c ∧ x = none := by
  by_cases hc : c
  · simp [hc]
  · simp [hc]

theorem validateMathMacro_toDraft : validateMathMacro (toDraft item) = none ↔ Definable item := by
  have hdef : ofText item.name = ofText "def" ↔ item.name = "def" :=
    ⟨ofText_inj, fun h => by rw [h]⟩
  have hcontrol : (item.replacement.toList.map Char.toNat).any isControl =
      item.replacement.toList.any Marginalis.isControl := by
    rw [List.any_map]
    refine List.any_congr rfl fun c => ?_
    simp [isControl, Marginalis.isControl, Nat.lt_succ_iff]
  rw [validateMathMacro, ite_some_eq_none, ite_some_eq_none, ite_some_eq_none, ite_some_eq_none,
    ite_some_eq_none, ite_some_eq_none]
  simp only [toDraft, codePoints_ofText, List.length_map, hdef, safeTexDefinitionReplacement,
    hcontrol, List.length_eq_zero_iff, ofText_eq_nil, not_or, Bool.not_eq_false,
    isControlWordName_ofText]
  refine ⟨fun h => ?_, fun h => ?_⟩
  · obtain ⟨⟨⟨hne, hletters⟩, hname⟩, hnotdef, ⟨hrep, hlength, hcc⟩, hbraces, ⟨-, hcount⟩,
      ⟨hinvalid, hrefs⟩, -⟩ := h
    have hle : item.argumentCount ≤ 9 := by
      have hmax : maxMathMacroArguments = 9 := rfl
      omega
    refine ⟨hne, hletters, Nat.not_lt.mp hname, hnotdef, hrep, Nat.not_lt.mp hlength,
      Bool.not_eq_true _ ▸ hcc, hle, (references_ofText hle _).mp ⟨by omega, fun r hr => ?_⟩,
      hbraces⟩
    by_contra hgt
    exact hrefs (List.any_eq_true.mpr ⟨r, hr, decide_eq_true (by omega)⟩)
  · obtain ⟨hinvalid, hrefs⟩ := (references_ofText h.count_le _).mpr h.references
    have hle := h.count_le
    have hmax : maxMathMacroArguments = 9 := rfl
    refine ⟨⟨⟨h.name_ne, h.letters⟩, Nat.not_lt.mpr h.name_length⟩, h.name_ne_def,
      ⟨h.replacement_ne, Nat.not_lt.mpr h.replacement_length, by rw [h.no_control]; simp⟩,
      h.braces, ⟨by omega, by omega⟩, ⟨by omega, fun hany => ?_⟩, trivial⟩
    obtain ⟨r, hr, hgt⟩ := List.any_eq_true.mp hany
    have hler := hrefs r hr
    have hgt := of_decide_eq_true hgt
    omega

/-! ## Lists of macros -/

theorem validateEach_eq_none {names : List JsString} {macros : List MathMacroDraft} :
    validateEach names macros = none ↔ (∀ item ∈ macros, validateMathMacro item = none) ∧
      (macros.map MathMacroDraft.name).Nodup ∧ ∀ item ∈ macros, item.name ∉ names := by
  induction macros generalizing names with
  | nil => simp [validateEach]
  | cons item rest ih =>
    rw [validateEach, nodup_names_cons, List.forall_mem_cons]
    cases hitem : validateMathMacro item with
    | some problem => simp
    | none =>
      dsimp only
      by_cases hnew : item.name ∈ names
      · simp [hnew]
      · rw [if_neg hnew, ih]
        simp [hnew]

theorem toDraft_received {item : MathMacroDraft} (hname : WellFormed item.name)
    (hreplacement : WellFormed item.replacement) (hcount : 0 ≤ item.argumentCount) :
    toDraft (received item) = item := by
  obtain ⟨name, replacement, count⟩ := item
  simp only [toDraft, received, MathMacroDraft.mk.injEq]
  exact ⟨ofText_toText hname, ofText_toText hreplacement, Int.toNat_of_nonneg hcount⟩

theorem received_toDraft (item : MathMacro) : received (toDraft item) = item := by
  simp [received, toDraft, toText_ofText]

/-- The form accepts the macros of the server that the server accepts. -/
theorem validateMathMacros_map_toDraft (macros : List MathMacro) :
    validateMathMacros (macros.map toDraft) = none ↔ AcceptedMacros macros := by
  have hbytes : mathMacroBytes (macros.map toDraft) = (macros.map fun item =>
      (Framing.textBytes item.name).length + (Framing.textBytes item.replacement).length).sum := by
    rw [mathMacroBytes, List.map_map]
    congr 1
    refine List.map_congr_left fun item _ => ?_
    simp only [Function.comp_apply, toDraft, encode, toText_ofText]
  have hnames : ((macros.map toDraft).map MathMacroDraft.name).Nodup ↔
      (macros.map MathMacro.name).Nodup := by
    rw [List.map_map, ← List.nodup_map_iff fun _ _ h => ofText_inj h, List.map_map]
    rfl
  rw [validateMathMacros, ite_some_eq_none, ite_some_eq_none, validateEach_eq_none, hnames, hbytes,
    List.length_map, List.forall_mem_map]
  simp only [validateMathMacro_toDraft, ← storable_and_safe]
  refine ⟨fun h => ?_, fun h => ?_⟩
  · obtain ⟨hlength, hsum, hitems, hnodup, -⟩ := h
    exact ⟨Nat.not_lt.mp hlength, Nat.not_lt.mp hsum, fun item hitem => (hitems item hitem).1,
      hnodup, fun item hitem => (hitems item hitem).2⟩
  · exact ⟨Nat.not_lt.mpr h.length_le, Nat.not_lt.mpr h.bytes_le,
      fun item hitem => ⟨h.storable item hitem, h.safe item hitem⟩, h.nodup, by simp⟩

/-- The form and the server accept the same lists of macros. -/
theorem validateMathMacros_agree (macros : List MathMacroDraft)
    (hmacros : ∀ item ∈ macros, WellFormed item.name ∧ WellFormed item.replacement ∧
      0 ≤ item.argumentCount ∧ item.argumentCount ≤ 255) :
    validateMathMacros macros = none ↔
      Marginalis.validateMathMacros (macros.map received) = .ok () := by
  have hdrafts : (macros.map received).map toDraft = macros := by
    rw [List.map_map]
    refine (List.map_congr_left fun item hitem => ?_).trans (List.map_id macros)
    obtain ⟨hname, hreplacement, hcount, -⟩ := hmacros item hitem
    exact toDraft_received hname hreplacement hcount
  rw [validateMathMacros_eq_ok, ← validateMathMacros_map_toDraft, hdrafts]

theorem validateMathMacros_agree_operators :
    validateMathMacros [toDraft ⟨"abs", "\\left|#1\\right|", 1⟩, toDraft ⟨"R", "\\mathbb R", 0⟩] =
      none :=
  (validateMathMacros_agree _ fun item hitem => by
    rcases List.mem_pair.mp hitem with rfl | rfl
    · exact ⟨wellFormed_ofText _, wellFormed_ofText _, by decide, by decide⟩
    · exact ⟨wellFormed_ofText _, wellFormed_ofText _, by decide, by decide⟩).mpr (by
    rw [List.map_cons, List.map_singleton, received_toDraft, received_toDraft]
    decide +kernel)

end MathMacroState

end Marginalis
