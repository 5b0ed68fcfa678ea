import Mathlib.Data.List.DropRight

/-!
# Characters

Names, headers and macros are checked with the classes of Unicode that the standard library of
the server knows, and are trimmed by them.
-/

namespace Marginalis

/-- `char::is_whitespace` : the Unicode property `White_Space`. -/
def isWhitespace (c : Char) : Bool :=
  (9 ≤ c.toNat && c.toNat ≤ 13) || c.toNat == 0x20 || c.toNat == 0x85 || c.toNat == 0xA0 ||
    c.toNat == 0x1680 || (0x2000 ≤ c.toNat && c.toNat ≤ 0x200A) || c.toNat == 0x2028 ||
    c.toNat == 0x2029 || c.toNat == 0x202F || c.toNat == 0x205F || c.toNat == 0x3000

/-- `char::is_control` : the Unicode category `Cc`. -/
def isControl (c : Char) : Bool := c.toNat < 0x20 || (0x7F ≤ c.toNat && c.toNat ≤ 0x9F)

/-- `str::trim`. -/
def trim (s : List Char) : List Char :=
  ((s.dropWhile isWhitespace).reverse.dropWhile isWhitespace).reverse

/-- `str::trim_end`. -/
def trimEnd (s : List Char) : List Char := (s.reverse.dropWhile isWhitespace).reverse

theorem trim_trim (s : List Char) : trim (trim s) = trim s := by
  have htrim : ∀ s, trim s = (s.dropWhile isWhitespace).rdropWhile isWhitespace := fun _ => rfl
  have hprefix := List.rdropWhile_prefix isWhitespace (s.dropWhile isWhitespace)
  have hdrop : (trim s).dropWhile isWhitespace = trim s := by
    rw [List.dropWhile_eq_self_iff]
    intro hlen
    rw [htrim] at hlen
    have hpos : 0 < (s.dropWhile isWhitespace).length := hlen.trans_le hprefix.length_le
    have hhead := List.dropWhile_eq_self_iff.mp
      (List.dropWhile_idempotent isWhitespace s) hpos
    simp only [htrim, hprefix.getElem hlen]
    exact hhead
  rw [htrim (trim s), hdrop, htrim s, List.rdropWhile_idempotent]

end Marginalis
