import Mathlib.Data.List.Basic
import Marginalis.AsciiCodes

/-!
# Strings of the browser

A JavaScript string is a list of UTF-16 units. A unit of its own or a pair of surrogates is a code
point, and a surrogate that stands alone is one as well, which no text has. `ofText` writes a
text in units and `toText` reads one, with U+FFFD for a surrogate that stands alone, as an
encoder does. Well-formed strings are those of texts (`ofText_toText`, `toText_ofText`).
-/

namespace Marginalis

abbrev JsString := List UInt16

namespace JsText

def isLead (unit : UInt16) : Bool := decide (0xD800 ≤ unit.toNat ∧ unit.toNat < 0xDC00)

def isTrail (unit : UInt16) : Bool := decide (0xDC00 ≤ unit.toNat ∧ unit.toNat < 0xE000)

/-- The units of a character. -/
def charUnits (c : Char) : List UInt16 :=
  if c.toNat < 0x10000 then [UInt16.ofNat c.toNat]
  else
    [UInt16.ofNat (0xD800 + (c.toNat - 0x10000) / 0x400),
      UInt16.ofNat (0xDC00 + (c.toNat - 0x10000) % 0x400)]

def ofText (text : String) : JsString := text.toList.flatMap charUnits

/-- `Array.from(value)`, each code point by its number. -/
def codePoints : JsString → List ℕ
  | [] => []
  | [unit] => [unit.toNat]
  | lead :: trail :: rest =>
    if isLead lead && isTrail trail then
      (0x10000 + (lead.toNat - 0xD800) * 0x400 + (trail.toNat - 0xDC00)) :: codePoints rest
    else
      lead.toNat :: codePoints (trail :: rest)

/-- No surrogate stands alone. -/
def WellFormed (value : JsString) : Prop := ∀ n ∈ codePoints value, n.isValidChar

instance (value : JsString) : Decidable (WellFormed value) :=
  inferInstanceAs (Decidable (∀ n ∈ codePoints value, n.isValidChar))

def charOf (codePoint : ℕ) : Char :=
  if codePoint.isValidChar then Char.ofNat codePoint else '\uFFFD'

def toText (value : JsString) : String := String.ofList ((codePoints value).map charOf)

/-! ## Texts as strings -/

variable {c : Char} {unit : UInt16} {rest value : JsString} {n : ℕ}

theorem toNat_lt (c : Char) : c.toNat < 0xD800 ∨ 0xDFFF < c.toNat ∧ c.toNat < 0x110000 :=
  c.valid

theorem charOf_toNat (c : Char) : charOf c.toNat = c := by
  rw [charOf, if_pos (show c.toNat.isValidChar from c.valid), Char.ofNat_toNat]

theorem toNat_charOf (h : n.isValidChar) : (charOf n).toNat = n := by
  rw [charOf, if_pos h, Char.ofNat, dif_pos h]
  rfl

theorem codePoints_cons_of_not_lead (h : isLead unit = false) :
    codePoints (unit :: rest) = unit.toNat :: codePoints rest := by
  rcases rest with - | ⟨trail, rest⟩
  · rfl
  · rw [codePoints, h]
    rfl

theorem toNat_ofNat_of_lt (h : n < 0x10000) : (UInt16.ofNat n).toNat = n :=
  UInt16.toNat_ofNat_of_lt' h

theorem codePoints_charUnits_append (c : Char) (rest : JsString) :
    codePoints (charUnits c ++ rest) = c.toNat :: codePoints rest := by
  have hc := toNat_lt c
  unfold charUnits
  by_cases hlt : c.toNat < 0x10000
  · have hunit := toNat_ofNat_of_lt hlt
    rw [if_pos hlt, List.singleton_append, codePoints_cons_of_not_lead, hunit]
    rw [isLead, hunit]
    exact decide_eq_false (by omega)
  · have hlead : (UInt16.ofNat (0xD800 + (c.toNat - 0x10000) / 0x400)).toNat =
        0xD800 + (c.toNat - 0x10000) / 0x400 := toNat_ofNat_of_lt (by omega)
    have htrail : (UInt16.ofNat (0xDC00 + (c.toNat - 0x10000) % 0x400)).toNat =
        0xDC00 + (c.toNat - 0x10000) % 0x400 := toNat_ofNat_of_lt (by omega)
    have hpair : (isLead (UInt16.ofNat (0xD800 + (c.toNat - 0x10000) / 0x400)) &&
        isTrail (UInt16.ofNat (0xDC00 + (c.toNat - 0x10000) % 0x400))) = true := by
      rw [Bool.and_eq_true, isLead, isTrail, hlead, htrail]
      exact ⟨decide_eq_true (by omega), decide_eq_true (by omega)⟩
    have hpoint : 0x10000 + (0xD800 + (c.toNat - 0x10000) / 0x400 - 0xD800) * 0x400 +
        (0xDC00 + (c.toNat - 0x10000) % 0x400 - 0xDC00) = c.toNat := by
      omega
    rw [if_neg hlt, List.cons_append, List.singleton_append, codePoints, if_pos hpair, hlead,
      htrail, hpoint]

theorem codePoints_flatMap (chars : List Char) :
    codePoints (chars.flatMap charUnits) = chars.map Char.toNat := by
  induction chars with
  | nil => rfl
  | cons c chars ih => rw [List.flatMap_cons, codePoints_charUnits_append, ih, List.map_cons]

theorem codePoints_ofText (text : String) : codePoints (ofText text) = text.toList.map Char.toNat :=
  codePoints_flatMap _

theorem toText_ofText (text : String) : toText (ofText text) = text := by
  have hid : charOf ∘ Char.toNat = id := funext charOf_toNat
  rw [toText, codePoints_ofText, List.map_map, hid, List.map_id, String.ofList_toList]

theorem wellFormed_ofText (text : String) : WellFormed (ofText text) := by
  intro n hn
  rw [codePoints_ofText] at hn
  obtain ⟨c, -, rfl⟩ := List.mem_map.mp hn
  exact c.valid

theorem charUnits_unit (hvalid : unit.toNat.isValidChar) :
    charUnits (charOf unit.toNat) = [unit] := by
  have hlt : unit.toNat < 0x10000 := unit.toNat_lt
  rw [charUnits, toNat_charOf hvalid, if_pos hlt, UInt16.ofNat_toNat]

/-- The units of the code point of a pair are the pair. -/
theorem charUnits_pair {lead trail : UInt16} (h : (isLead lead && isTrail trail) = true) :
    charUnits (charOf (0x10000 + (lead.toNat - 0xD800) * 0x400 + (trail.toNat - 0xDC00))) =
      [lead, trail] := by
  rw [Bool.and_eq_true] at h
  have hlead := of_decide_eq_true h.1
  have htrail := of_decide_eq_true h.2
  rw [charUnits, toNat_charOf (Or.inr ⟨by omega, by omega⟩), if_neg (by omega)]
  have hl : 0xD800 + (0x10000 + (lead.toNat - 0xD800) * 0x400 + (trail.toNat - 0xDC00) -
      0x10000) / 0x400 = lead.toNat := by
    omega
  have ht : 0xDC00 + (0x10000 + (lead.toNat - 0xD800) * 0x400 + (trail.toNat - 0xDC00) -
      0x10000) % 0x400 = trail.toNat := by
    omega
  rw [hl, ht, UInt16.ofNat_toNat, UInt16.ofNat_toNat]

/-- A well-formed string is written by its code points. -/
theorem flatMap_codePoints (h : WellFormed value) :
    (codePoints value).flatMap (fun n => charUnits (charOf n)) = value := by
  unfold WellFormed at h
  induction value using codePoints.induct with
  | case1 => rfl
  | case2 unit =>
    rw [codePoints, List.flatMap_singleton, charUnits_unit (h _ (by simp [codePoints]))]
  | case3 lead trail rest hpair ih =>
    rw [codePoints, if_pos hpair] at h ⊢
    rw [List.flatMap_cons, charUnits_pair hpair, ih fun n hn => h n (List.mem_cons_of_mem _ hn)]
    rfl
  | case4 lead trail rest hpair ih =>
    rw [codePoints, if_neg hpair] at h ⊢
    rw [List.flatMap_cons, charUnits_unit (h _ (List.mem_cons_self ..)),
      ih fun n hn => h n (List.mem_cons_of_mem _ hn)]
    rfl

theorem codePoints_ofText_append (text : String) (rest : JsString) :
    codePoints (ofText text ++ rest) = text.toList.map Char.toNat ++ codePoints rest := by
  unfold ofText
  induction text.toList with
  | nil => rfl
  | cons c chars ih =>
    rw [List.flatMap_cons, List.append_assoc, codePoints_charUnits_append, ih, List.map_cons]
    rfl

theorem ofText_inj {text text' : String} (h : ofText text = ofText text') : text = text' := by
  rw [← toText_ofText text, h, toText_ofText]

theorem keepsAscii_utf16 :
    AsciiCodes.KeepsAscii fun c => (charUnits c).map UInt16.toNat where
  ascii c hc := by
    rw [charUnits, if_pos (by omega), List.map_singleton, toNat_ofNat_of_lt (by omega)]
  ne_nil c := by
    unfold charUnits
    split_ifs <;> simp
  above c hc n hn := by
    have hvalid := toNat_lt c
    unfold charUnits at hn
    by_cases hlt : c.toNat < 0x10000
    · rw [if_pos hlt, List.map_singleton, List.mem_singleton, toNat_ofNat_of_lt hlt] at hn
      omega
    · have hlead : (UInt16.ofNat (0xD800 + (c.toNat - 0x10000) / 0x400)).toNat =
          0xD800 + (c.toNat - 0x10000) / 0x400 := toNat_ofNat_of_lt (by omega)
      have htrail : (UInt16.ofNat (0xDC00 + (c.toNat - 0x10000) % 0x400)).toNat =
          0xDC00 + (c.toNat - 0x10000) % 0x400 := toNat_ofNat_of_lt (by omega)
      rw [if_neg hlt, List.map_cons, List.map_singleton, hlead, htrail] at hn
      rcases List.mem_pair.mp hn with hn | hn
      · omega
      · omega

/-- The numbers of the units of a text. -/
theorem map_toNat_ofText (text : String) :
    (ofText text).map UInt16.toNat =
      text.toList.flatMap fun c => (charUnits c).map UInt16.toNat :=
  List.map_flatMap

theorem ofText_toText (h : WellFormed value) : ofText (toText value) = value := by
  rw [ofText, toText, String.toList_ofList, List.flatMap_map, flatMap_codePoints h]

end JsText

end Marginalis
