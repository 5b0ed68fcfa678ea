import Marginalis.Uuid
import Mathlib.Data.List.Nodup

/-!
# Reading hexadecimal digits

The digits that `Uuid.hex` writes are read back as the number they were written for
(`value_hex`), digit by digit or in pairs (`valueOfPairs_hex`). A reader of pairs that parses each
of them as a byte takes a sign for its first character, and digits of either case : what it reads
has to be compared with what would have been written.
-/

namespace Uuid

variable {k m n : ℕ} {c : Char} {l l' : List Char}

/-! ## Digits -/

/-- The value of a hexadecimal digit. -/
def digitValue (c : Char) : Option ℕ :=
  if 48 ≤ c.toNat ∧ c.toNat ≤ 57 then some (c.toNat - 48)
  else if 97 ≤ c.toNat ∧ c.toNat ≤ 102 then some (c.toNat - 87)
  else if 65 ≤ c.toNat ∧ c.toNat ≤ 70 then some (c.toNat - 55)
  else none

/-- The number that digits are written for, the highest of them first. -/
def value : ℕ → List Char → Option ℕ
  | n, [] => some n
  | n, c :: l => (digitValue c).bind fun digit => value (16 * n + digit) l

/-- A byte from two characters, as `from_str_radix` parses it : a plus sign may stand before one
digit. -/
def byteValue (high low : Char) : Option ℕ :=
  if high = '+' then digitValue low
  else (digitValue high).bind fun h => (digitValue low).map fun l => 16 * h + l

/-- The number of bytes that are each read from two characters. -/
def valueOfPairs : ℕ → List Char → Option ℕ
  | n, [] => some n
  | _, [_] => none
  | n, high :: low :: l => (byteValue high low).bind fun byte => valueOfPairs (256 * n + byte) l

theorem digitValue_digitChar (h : n < 16) : digitValue (Nat.digitChar n) = some n := by
  have hall : ∀ n < 16, digitValue (Nat.digitChar n) = some n := by decide
  exact hall n h

theorem digitChar_ne_plus (h : n < 16) : Nat.digitChar n ≠ '+' := by
  have hall : ∀ n < 16, Nat.digitChar n ≠ '+' := by decide
  exact hall n h

theorem digitValue_lt {d : ℕ} (h : digitValue c = some d) : d < 16 := by
  unfold digitValue at h
  split_ifs at h <;> · rw [Option.some.injEq] at h; omega

theorem byteValue_lt {high low : Char} {byte : ℕ} (h : byteValue high low = some byte) :
    byte < 256 := by
  unfold byteValue at h
  split_ifs at h
  · have hlow := digitValue_lt h
    omega
  · obtain ⟨d, hd, h⟩ := Option.bind_eq_some_iff.mp h
    obtain ⟨e, he, rfl⟩ := Option.map_eq_some_iff.mp h
    have hhigh := digitValue_lt hd
    have hlow := digitValue_lt he
    omega

/-! ## Numbers -/

theorem value_append : value m (l ++ l') = (value m l).bind fun n => value n l' := by
  induction l generalizing m with
  | nil => rfl
  | cons c l ih =>
    rw [List.cons_append, value, value]
    cases digitValue c with
    | none => rfl
    | some digit => exact ih

/-- What was written is read back. -/
theorem value_hex (h : n < 16 ^ k) : value m (hex k n) = some (16 ^ k * m + n) := by
  induction k generalizing n with
  | zero =>
    obtain rfl : n = 0 := by simpa using h
    simp [hex, value]
  | succ k ih =>
    have hhigh : n / 16 < 16 ^ k := by
      rw [pow_succ] at h
      omega
    rw [hex, value_append, ih hhigh, Option.bind_some, value,
      digitValue_digitChar (Nat.mod_lt n (by omega)), Option.bind_some, value, Option.some.injEq,
      pow_succ, mul_add, ← mul_assoc]
    have hmod := Nat.div_add_mod n 16
    rw [mul_comm 16 (16 ^ k)]
    omega

theorem valueOfPairs_append : ∀ {m : ℕ} {l : List Char}, l.length % 2 = 0 →
    valueOfPairs m (l ++ l') = (valueOfPairs m l).bind fun n => valueOfPairs n l'
  | m, [], _ => rfl
  | m, [_], heven => by simp at heven
  | m, high :: low :: l, heven => by
    rw [List.cons_append, List.cons_append, valueOfPairs, valueOfPairs]
    cases byteValue high low with
    | none => rfl
    | some byte =>
      refine valueOfPairs_append ?_
      simp only [List.length_cons] at heven
      omega

theorem valueOfPairs_hex (h : n < 256 ^ k) :
    valueOfPairs m (hex (2 * k) n) = some (256 ^ k * m + n) := by
  induction k generalizing n with
  | zero =>
    obtain rfl : n = 0 := by simpa using h
    simp [hex, valueOfPairs]
  | succ k ih =>
    have hhigh : n / 256 < 256 ^ k := by
      rw [pow_succ] at h
      omega
    have hpair : hex (2 * (k + 1)) n = hex (2 * k) (n / 256) ++
        [Nat.digitChar (n / 16 % 16), Nat.digitChar (n % 16)] := by
      rw [show 2 * (k + 1) = 2 * k + 1 + 1 from by omega, hex, hex, Nat.div_div_eq_div_mul]
      simp
    have hbyte : byteValue (Nat.digitChar (n / 16 % 16)) (Nat.digitChar (n % 16)) =
        some (16 * (n / 16 % 16) + n % 16) := by
      have hfirst : n / 16 % 16 < 16 := Nat.mod_lt _ (by omega)
      have hsecond : n % 16 < 16 := Nat.mod_lt _ (by omega)
      rw [byteValue, if_neg (digitChar_ne_plus hfirst), digitValue_digitChar hfirst,
        digitValue_digitChar hsecond]
      rfl
    rw [hpair, valueOfPairs_append (by simp), ih hhigh, Option.bind_some, valueOfPairs, hbyte,
      Option.bind_some, valueOfPairs, Option.some.injEq, pow_succ, mul_add, ← mul_assoc]
    rw [mul_comm 256 (256 ^ k)]
    omega

/-- As many bytes as there are pairs. -/
theorem valueOfPairs_lt : ∀ {k m : ℕ} {l : List Char}, m < 256 ^ k →
    valueOfPairs m l = some n → n < 256 ^ (k + l.length / 2)
  | k, m, [], hm, h => by
    obtain rfl := Option.some.inj h
    simpa using hm
  | k, m, [_], hm, h => by cases h
  | k, m, high :: low :: l, hm, h => by
    obtain ⟨byte, hbyte, h⟩ := Option.bind_eq_some_iff.mp h
    have hlt := byteValue_lt hbyte
    have hnext : 256 * m + byte < 256 ^ (k + 1) := by
      rw [pow_succ]
      omega
    have hrest := valueOfPairs_lt hnext h
    have hlength : k + (high :: low :: l).length / 2 = k + 1 + l.length / 2 := by
      simp only [List.length_cons]
      omega
    rwa [hlength]

/-! ## The text of a UUID -/

/-- A reader of UUIDs in the form they are written in. -/
def parseText (l : List Char) : Option ℕ :=
  (value 0 (l.filter fun c => c ≠ '-')).filter fun n => n < 2 ^ 128 ∧ text n = l

theorem hex_filter : (hex k n).filter (fun c => c ≠ '-') = hex k n := by
  refine List.filter_eq_self.mpr fun c hc => ?_
  obtain ⟨d, hd, rfl⟩ := mem_hex hc
  have hall : ∀ d < 16, Nat.digitChar d ≠ '-' := by decide
  exact decide_eq_true (hall d hd)

theorem parseText_text (h : n < 2 ^ 128) : parseText (text n) = some n := by
  have hdigits : (text n).filter (fun c => c ≠ '-') = hex 32 n := by
    have hfilter : ∀ l : List Char, l.Sublist (hex 32 n) →
        l.filter (fun c => decide (c ≠ '-')) = l := by
      intro l hl
      refine List.filter_eq_self.mpr fun c hc => ?_
      have hmem := hl.subset hc
      rw [← hex_filter] at hmem
      exact (List.mem_filter.mp hmem).2
    have hpart : ∀ i j, (((hex 32 n).drop i).take j).Sublist (hex 32 n) := fun i j =>
      (List.take_sublist _ _).trans (List.drop_sublist _ _)
    unfold text
    simp only [List.filter_append, List.filter_cons, ne_eq, not_true_eq_false, decide_false,
      Bool.false_eq_true, if_false]
    rw [hfilter _ (List.take_sublist _ _), hfilter _ (hpart 8 4), hfilter _ (hpart 12 4),
      hfilter _ (hpart 16 4), hfilter _ (List.drop_sublist _ _)]
    -- The groups are put together from the last one on.
    have hgroup : ∀ i j, ((hex 32 n).drop i).take j ++ (hex 32 n).drop (i + j) =
        (hex 32 n).drop i := by
      intro i j
      rw [← List.drop_drop, List.take_append_drop]
    rw [hgroup 16 4, hgroup 12 4, hgroup 8 4, List.take_append_drop]
  unfold parseText
  rw [hdigits, value_hex (by omega), mul_zero, zero_add]
  exact Option.filter_eq_some_iff.mpr ⟨rfl, decide_eq_true ⟨h, rfl⟩⟩

end Uuid
