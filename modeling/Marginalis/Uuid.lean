import Mathlib.Algebra.Order.Ring.Int
import Mathlib.Data.List.Basic

/-!
# The text of a UUID

A number of 128 bits is written as 32 hexadecimal digits in five groups. The text has always
36 characters, digits and hyphens only, and it determines the number.
-/

namespace Uuid

variable {k m n : ℕ} {c : Char}

/-- The last `k` hexadecimal digits of a number. -/
def hex : ℕ → ℕ → List Char
  | 0, _ => []
  | k + 1, n => hex k (n / 16) ++ [Nat.digitChar (n % 16)]

/-- The digits in groups of 8, 4, 4, 4 and 12. -/
def text (n : ℕ) : List Char :=
  (hex 32 n).take 8 ++ '-' :: (((hex 32 n).drop 8).take 4 ++ '-' ::
    (((hex 32 n).drop 12).take 4 ++ '-' ::
      (((hex 32 n).drop 16).take 4 ++ '-' :: (hex 32 n).drop 20)))

@[simp] theorem length_hex : (hex k n).length = k := by
  induction k generalizing n with
  | zero => rfl
  | succ k ih => simp [hex, ih]

@[simp] theorem length_text : (text n).length = 36 := by
  simp [text]

theorem mem_hex (h : c ∈ hex k n) : ∃ d < 16, c = Nat.digitChar d := by
  induction k generalizing n with
  | zero => exact absurd h List.not_mem_nil
  | succ k ih =>
    rcases List.mem_append.mp h with h | h
    · exact ih h
    · exact ⟨n % 16, Nat.mod_lt n (by omega), List.mem_singleton.mp h⟩

/-- The characters of a text are digits and hyphens. -/
theorem mem_text (h : c ∈ text n) : c = '-' ∨ ∃ d < 16, c = Nat.digitChar d := by
  simp only [text, List.mem_append, List.mem_cons] at h
  rcases h with h | h | h | h | h | h | h | h | h
  · exact .inr (mem_hex (List.mem_of_mem_take h))
  · exact .inl h
  · exact .inr (mem_hex (List.mem_of_mem_drop (List.mem_of_mem_take h)))
  · exact .inl h
  · exact .inr (mem_hex (List.mem_of_mem_drop (List.mem_of_mem_take h)))
  · exact .inl h
  · exact .inr (mem_hex (List.mem_of_mem_drop (List.mem_of_mem_take h)))
  · exact .inl h
  · exact .inr (mem_hex (List.mem_of_mem_drop h))

theorem digitChar_inj (hm : m < 16) (hn : n < 16) (h : Nat.digitChar m = Nat.digitChar n) :
    m = n := by
  have hall : ∀ m < 16, ∀ n < 16, Nat.digitChar m = Nat.digitChar n → m = n := by decide
  exact hall m hm n hn h

theorem hex_inj (hm : m < 16 ^ k) (hn : n < 16 ^ k) (h : hex k m = hex k n) : m = n := by
  induction k generalizing m n with
  | zero => omega
  | succ k ih =>
    simp only [hex] at h
    obtain ⟨hhigh, hlow⟩ := List.append_inj' h rfl
    rw [pow_succ] at hm hn
    have hdiv : m / 16 = n / 16 := ih (by omega) (by omega) hhigh
    have hmod : m % 16 = n % 16 :=
      digitChar_inj (by omega) (by omega) (List.singleton_inj.mp hlow)
    omega

/-- The text determines the number. -/
theorem text_inj (hm : m < 2 ^ 128) (hn : n < 2 ^ 128) (h : text m = text n) : m = n := by
  unfold text at h
  obtain ⟨h8, h⟩ := List.append_inj h (by simp)
  obtain ⟨h12, h⟩ := List.append_inj (List.cons.inj h).2 (by simp)
  obtain ⟨h16, h⟩ := List.append_inj (List.cons.inj h).2 (by simp)
  obtain ⟨h20, h⟩ := List.append_inj (List.cons.inj h).2 (by simp)
  have h32 := (List.cons.inj h).2
  -- The groups are put together from the last one on.
  have hgroup : ∀ i j, ∀ l l' : List Char, (l.drop i).take j = (l'.drop i).take j →
      l.drop (i + j) = l'.drop (i + j) → l.drop i = l'.drop i := by
    intro i j l l' htake hdrop
    rw [← List.take_append_drop j (l.drop i), ← List.take_append_drop j (l'.drop i), htake,
      List.drop_drop, List.drop_drop, hdrop]
  have hdigits : (hex 32 m).drop 0 = (hex 32 n).drop 0 :=
    hgroup 0 8 _ _ h8 (hgroup 8 4 _ _ h12 (hgroup 12 4 _ _ h16 (hgroup 16 4 _ _ h20 h32)))
  exact hex_inj (by omega) (by omega) hdigits

end Uuid
