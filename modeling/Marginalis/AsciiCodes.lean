import Mathlib.Data.List.Basic

/-!
# Encodings that keep ASCII

UTF-8 and UTF-16 write an ASCII character as its own number and every other one with numbers that
are not ASCII. A condition that only ASCII numbers meet therefore says the same of a text and of
its encoding (`KeepsAscii.forall_mem_flatMap`). `keepsAscii_utf8` is the case of UTF-8.
-/

namespace AsciiCodes

/-- Characters written as numbers, ASCII as it is and nothing else as ASCII. -/
structure KeepsAscii (encode : Char → List ℕ) : Prop where
  ascii : ∀ c : Char, c.toNat < 128 → encode c = [c.toNat]
  ne_nil : ∀ c, encode c ≠ []
  above : ∀ c : Char, 128 ≤ c.toNat → ∀ n ∈ encode c, 128 ≤ n

namespace KeepsAscii

variable {encode : Char → List ℕ} {P : ℕ → Prop}

theorem forall_mem (h : KeepsAscii encode) (hP : ∀ n, P n → n < 128) (c : Char) :
    (∀ n ∈ encode c, P n) ↔ P c.toNat := by
  by_cases hc : c.toNat < 128
  · rw [h.ascii c hc]
    simp
  · refine ⟨fun hall => ?_, fun hn => absurd (hP _ hn) hc⟩
    obtain ⟨n, hn⟩ := List.exists_mem_of_ne_nil _ (h.ne_nil c)
    have habove := h.above c (by omega) n hn
    have hbelow := hP n (hall n hn)
    omega

/-- A condition on ASCII numbers holds all over a text when it does all over its encoding. -/
theorem forall_mem_flatMap (h : KeepsAscii encode) (hP : ∀ n, P n → n < 128)
    (chars : List Char) :
    (∀ n ∈ chars.flatMap encode, P n) ↔ ∀ c ∈ chars, P c.toNat := by
  refine ⟨fun hall c hc => ?_, fun hall n hn => ?_⟩
  · exact (h.forall_mem hP c).mp fun n hn => hall n (List.mem_flatMap.mpr ⟨c, hc, hn⟩)
  · obtain ⟨c, hc, hn⟩ := List.mem_flatMap.mp hn
    exact (h.forall_mem hP c).mpr (hall c hc) n hn

theorem flatMap_eq_nil (h : KeepsAscii encode) {chars : List Char} :
    chars.flatMap encode = [] ↔ chars = [] := by
  rcases chars with - | ⟨c, chars⟩
  · simp
  · simp [h.ne_nil c]

end KeepsAscii

/-! ## UTF-8 -/

theorem keepsAscii_utf8 :
    KeepsAscii fun c => (String.utf8EncodeChar c).map UInt8.toNat where
  ascii c hc := by
    have hval : c.val.toNat = c.toNat := rfl
    rw [String.utf8EncodeChar]
    simp only [hval]
    rw [if_pos (show c.toNat ≤ 127 by omega), List.map_singleton,
      UInt8.toNat_ofNat_of_lt' (show c.toNat < 256 by omega)]
  ne_nil c h := by
    have hlength := String.length_utf8EncodeChar c
    have hpos := c.utf8Size_pos
    rw [List.map_eq_nil_iff.mp h] at hlength
    simp only [List.length_nil] at hlength
    omega
  above c hc n hn := by
    have hval : c.val.toNat = c.toNat := rfl
    obtain ⟨byte, hbyte, rfl⟩ := List.mem_map.mp hn
    rw [String.utf8EncodeChar] at hbyte
    simp only [hval] at hbyte
    rw [if_neg (show ¬ c.toNat ≤ 127 by omega)] at hbyte
    have hof : ∀ m, m < 256 → 128 ≤ m → 128 ≤ (UInt8.ofNat m).toNat := by
      intro m hm hle
      rwa [UInt8.toNat_ofNat_of_lt' hm]
    split_ifs at hbyte <;> simp only [List.mem_cons, List.not_mem_nil, or_false] at hbyte
    · rcases hbyte with rfl | rfl <;> exact hof _ (by omega) (by omega)
    · rcases hbyte with rfl | rfl | rfl <;> exact hof _ (by omega) (by omega)
    · rcases hbyte with rfl | rfl | rfl | rfl <;> exact hof _ (by omega) (by omega)

end AsciiCodes
