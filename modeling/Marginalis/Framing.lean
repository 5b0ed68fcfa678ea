import Mathlib.Algebra.Order.Ring.Int
import Mathlib.Data.List.Basic
import Mathlib.Data.String.Basic

/-!
# Length-prefixed frames

A sequence of byte strings becomes one byte string when each is written behind its length,
which takes eight bytes. Frames can be read back : two sequences with the same bytes are the
same sequence, whatever the byte strings contain, and so are two frames that stand before
anything else. Numbers are written in a fixed number of bytes, the most significant first.
-/

namespace Framing

variable {k m n : ℕ} {a b s t : List UInt8} {parts parts' : List (List UInt8)}

/-! ## Numbers of a fixed width -/

/-- The last `k` bytes of a number, the most significant first. -/
def bigEndian : ℕ → ℕ → List UInt8
  | 0, _ => []
  | k + 1, n => bigEndian k (n / 256) ++ [UInt8.ofNat n]

@[simp] theorem length_bigEndian : (bigEndian k n).length = k := by
  induction k generalizing n with
  | zero => rfl
  | succ k ih => simp [bigEndian, ih]

/-- Numbers that fit are written differently. -/
theorem bigEndian_inj (hm : m < 256 ^ k) (hn : n < 256 ^ k) (h : bigEndian k m = bigEndian k n) :
    m = n := by
  induction k generalizing m n with
  | zero => omega
  | succ k ih =>
    simp only [bigEndian] at h
    obtain ⟨hhigh, hlow⟩ := List.append_inj' h rfl
    rw [pow_succ] at hm hn
    have hdiv : m / 256 = n / 256 := ih (by omega) (by omega) hhigh
    have hmod : m % 256 = n % 256 := by
      have hbytes := congrArg UInt8.toNat (List.singleton_inj.mp hlow)
      simpa using hbytes
    omega

/-- `i64::to_be_bytes` : the number in two's complement. -/
def int64 (n : ℤ) : List UInt8 := bigEndian 8 (n % 2 ^ 64).toNat

@[simp] theorem length_int64 (n : ℤ) : (int64 n).length = 8 := length_bigEndian

/-- The numbers of 64 bits are written differently. -/
theorem int64_inj {m n : ℤ} (hm : -2 ^ 63 ≤ m ∧ m < 2 ^ 63) (hn : -2 ^ 63 ≤ n ∧ n < 2 ^ 63)
    (h : int64 m = int64 n) : m = n := by
  have hbytes : (m % 2 ^ 64).toNat = (n % 2 ^ 64).toNat :=
    bigEndian_inj (by omega) (by omega) h
  omega

/-! ## Frames -/

/-- A byte string behind its length as an unsigned number of 64 bits. -/
def frame (bytes : List UInt8) : List UInt8 :=
  bigEndian 8 (min bytes.length (2 ^ 64 - 1)) ++ bytes

def frames (parts : List (List UInt8)) : List UInt8 := parts.flatMap frame

@[simp] theorem frames_nil : frames [] = [] := rfl

@[simp] theorem frames_cons : frames (a :: parts) = frame a ++ frames parts := rfl

@[simp] theorem frames_append : frames (parts ++ parts') = frames parts ++ frames parts' :=
  List.flatMap_append

/-- The length says where a frame ends. -/
theorem frame_append_inj (ha : a.length < 2 ^ 64) (hb : b.length < 2 ^ 64)
    (h : frame a ++ s = frame b ++ t) : a = b ∧ s = t := by
  unfold frame at h
  rw [List.append_assoc, List.append_assoc] at h
  obtain ⟨hlength, hrest⟩ := List.append_inj h (by simp)
  have hlength : min a.length (2 ^ 64 - 1) = min b.length (2 ^ 64 - 1) :=
    bigEndian_inj (by omega) (by omega) hlength
  exact List.append_inj hrest (by omega)

theorem frame_ne_nil : frame a ++ s ≠ [] := by
  intro h
  have hlength := congrArg List.length h
  simp [frame] at hlength

/-- Sequences with the same bytes are the same. -/
theorem frames_inj (hparts : ∀ part ∈ parts, part.length < 2 ^ 64)
    (hparts' : ∀ part ∈ parts', part.length < 2 ^ 64) (h : frames parts = frames parts') :
    parts = parts' := by
  induction parts generalizing parts' with
  | nil =>
    rcases parts' with - | ⟨b, parts'⟩
    · rfl
    · exact absurd h.symm frame_ne_nil
  | cons a parts ih =>
    rcases parts' with - | ⟨b, parts'⟩
    · exact absurd h frame_ne_nil
    · obtain ⟨rfl, hrest⟩ := frame_append_inj (hparts a (by simp)) (hparts' b (by simp)) h
      rw [ih (fun part hpart => hparts part (by simp [hpart]))
        (fun part hpart => hparts' part (by simp [hpart])) hrest]

/-! ## Texts -/

/-- The UTF-8 bytes of a text. -/
def textBytes (s : String) : List UInt8 := s.toByteArray.data.toList

theorem textBytes_inj {s t : String} (h : textBytes s = textBytes t) : s = t := by
  refine String.toByteArray_inj.mp (ByteArray.ext (Array.toList_inj.mp h))

theorem textBytes_eq (s : String) : textBytes s = s.toList.flatMap String.utf8EncodeChar := by
  rw [textBytes, ← String.utf8Encode_toList, List.utf8Encode, List.toList_data_toByteArray]

theorem length_textBytes (s : String) : (textBytes s).length = s.utf8ByteSize :=
  rfl

/-- A text of ASCII characters has one byte for each. -/
theorem length_textBytes_ofList {cs : List Char} (h : ∀ c ∈ cs, c.utf8Size = 1) :
    (textBytes (String.ofList cs)).length = cs.length := by
  rw [length_textBytes, String.utf8ByteSize_ofList]
  induction cs with
  | nil => rfl
  | cons c cs ih =>
    rw [String.utf8Len_cons, ih fun d hd => h d (List.mem_cons_of_mem c hd), h c (by simp)]
    rfl

end Framing
