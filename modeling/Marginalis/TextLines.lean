import Mathlib.Data.List.Basic

/-!
# Texts and their lines

A text over any alphabet with a separator is a list of lines, each of which ends in the
separator except possibly the last. `lines` splits a text, `unlines` puts lines together, and
both say apart whether the last line is unterminated (`lines_unlines`, `unlines_lines`).

A text can also be spelled line by line, as `Token`s that carry their own end. A list of tokens
is one of lines when only its last can lack the separator, and such a list is determined by the
text it spells (`lines_spell`, `unterminated_spell`).
-/

set_option linter.unusedSectionVars false

namespace TextLines

variable {α : Type*} [DecidableEq α] {nl : α} {s : List α} {ls : List (List α)} {u : Bool}

/-- The text ends in the middle of a line. -/
def Unterminated (nl : α) (s : List α) : Prop := s ≠ [] ∧ s.getLast? ≠ some nl

instance : Decidable (Unterminated nl s) := by
  unfold Unterminated
  infer_instance

/-- The lines of a text, without their separators. -/
def lines (nl : α) (s : List α) : List (List α) :=
  if s = [] then [] else if s.getLast? = some nl then (s.splitOn nl).dropLast else s.splitOn nl

/-- The text that has these lines. -/
def unlines (nl : α) (ls : List (List α)) (unterminated : Bool) : List α :=
  if ls = [] then []
  else if unterminated then [nl].intercalate ls else [nl].intercalate ls ++ [nl]

@[simp] theorem unlines_nil : unlines nl [] u = [] := by simp [unlines]

/-! ## Splitting and joining -/

theorem splitOn_append_singleton : (s ++ [nl]).splitOn nl = s.splitOn nl ++ [[]] := by
  rw [List.splitOn_append_cons_self, List.splitOn_nil]

theorem not_mem_of_mem_splitOn {l : List α} (h : l ∈ s.splitOn nl) : nl ∉ l := by
  induction s generalizing l with
  | nil =>
    rw [List.splitOn_nil, List.mem_singleton] at h
    simp [h]
  | cons a s ih =>
    rw [List.splitOn_cons_eq_if_modifyHead] at h
    by_cases ha : a = nl
    · rw [if_pos (by simp [ha])] at h
      rcases List.mem_cons.mp h with rfl | h
      · simp
      · exact ih h
    · rw [if_neg (by simp [ha])] at h
      cases hsplit : s.splitOn nl with
      | nil => exact absurd hsplit (List.splitOn_ne_nil _ _)
      | cons first rest =>
        rw [hsplit, List.modifyHead_cons] at h
        rcases List.mem_cons.mp h with rfl | h
        · rw [List.mem_cons, not_or]
          exact ⟨fun he => ha he.symm, ih (by rw [hsplit]; exact List.mem_cons_self ..)⟩
        · exact ih (by rw [hsplit]; exact List.mem_cons_of_mem _ h)

theorem not_mem_of_mem_lines {l : List α} (h : l ∈ lines nl s) : nl ∉ l := by
  unfold lines at h
  split_ifs at h
  · cases h
  · exact not_mem_of_mem_splitOn (List.dropLast_subset _ h)
  · exact not_mem_of_mem_splitOn h

theorem intercalate_cons_cons (l l' : List α) (ls : List (List α)) :
    [nl].intercalate (l :: l' :: ls) = l ++ nl :: [nl].intercalate (l' :: ls) := by
  simp [List.intercalate]

/-- Joined lines end as their last line does, when that is not empty. -/
theorem getLast?_intercalate (h : ls ≠ []) (hlast : ls.getLast? ≠ some []) :
    [nl].intercalate ls ≠ [] ∧
      ∃ l ∈ ls, ([nl].intercalate ls).getLast? = l.getLast? := by
  induction ls with
  | nil => exact absurd rfl h
  | cons l rest ih =>
    cases rest with
    | nil =>
      rw [List.getLast?_singleton, ne_eq, Option.some.injEq] at hlast
      exact ⟨by simpa [List.intercalate] using hlast, l, by simp [List.intercalate]⟩
    | cons l' ls =>
      rw [List.getLast?_cons_cons] at hlast
      obtain ⟨hne, m, hm, heq⟩ := ih (List.cons_ne_nil _ _) hlast
      rw [intercalate_cons_cons]
      refine ⟨by simp, m, List.mem_cons_of_mem _ hm, ?_⟩
      rw [← heq, List.getLast?_append, List.getLast?_cons]
      cases hjoined : ([nl].intercalate (l' :: ls)).getLast? with
      | none => exact absurd (List.getLast?_eq_none_iff.mp hjoined) hne
      | some a => simp

/-- Lines without separators in them are the lines of the text they are put together to. An
unterminated last line must not be empty. -/
theorem lines_unlines (hls : ∀ l ∈ ls, nl ∉ l) (hlast : u = true → ls.getLast? ≠ some []) :
    lines nl (unlines nl ls u) = ls := by
  unfold unlines
  by_cases hnil : ls = []
  · simp [hnil, lines]
  · rw [if_neg hnil]
    have hsplit := List.splitOn_intercalate nl hls hnil
    by_cases hu : u = true
    · obtain ⟨hne, l, hl, hend⟩ := getLast?_intercalate hnil (hlast hu)
      have hnot : ([nl].intercalate ls).getLast? ≠ some nl := by
        rw [hend]
        exact fun hnl => hls l hl (List.mem_of_getLast? hnl)
      rw [if_pos hu, lines, if_neg hne, if_neg hnot, hsplit]
    · rw [if_neg hu, lines, if_neg (by simp), if_pos (by simp), splitOn_append_singleton, hsplit,
        List.dropLast_concat]

/-- Joined lines are no text when there are none, or one that is empty. -/
theorem intercalate_eq_nil : [nl].intercalate ls = [] ↔ ls = [] ∨ ls = [[]] := by
  cases ls with
  | nil => simp [List.intercalate]
  | cons l ls =>
    cases ls with
    | nil => simp [List.intercalate]
    | cons l' ls => simp

theorem unterminated_unlines (hls : ∀ l ∈ ls, nl ∉ l) (hlast : u = true → ls.getLast? ≠ some []) :
    Unterminated nl (unlines nl ls u) ↔ ls ≠ [] ∧ u = true := by
  unfold unlines Unterminated
  by_cases hnil : ls = []
  · simp [hnil]
  · rw [if_neg hnil]
    by_cases hu : u = true
    · obtain ⟨hne, l, hl, hend⟩ := getLast?_intercalate hnil (hlast hu)
      have hnot : ([nl].intercalate ls).getLast? ≠ some nl := by
        rw [hend]
        exact fun hnl => hls l hl (List.mem_of_getLast? hnl)
      rw [if_pos hu]
      exact ⟨fun _ => ⟨hnil, hu⟩, fun _ => ⟨hne, hnot⟩⟩
    · rw [if_neg hu]
      simp [hu]

/-- A text is put together from its lines. -/
theorem unlines_lines (s : List α) : unlines nl (lines nl s) (Unterminated nl s) = s := by
  unfold unlines lines Unterminated
  by_cases hnil : s = []
  · simp [hnil]
  · rw [if_neg hnil]
    have hjoin : [nl].intercalate (s.splitOn nl) = s := List.intercalate_splitOn nl
    have hne := List.splitOn_ne_nil nl s
    by_cases hend : s.getLast? = some nl
    · obtain ⟨init, rfl⟩ : ∃ init, s = init ++ [nl] := List.getLast?_eq_some_iff.mp hend
      have hinit := List.splitOn_ne_nil nl init
      rw [if_pos hend, splitOn_append_singleton, List.dropLast_concat, if_neg hinit,
        if_neg (by simp), List.intercalate_splitOn]
    · rw [if_neg hend, if_neg hne, if_pos (by simp [hnil, hend]), hjoin]

/-- The end of a text that has lines is part of it. -/
theorem unlines_inj {v : Bool} (hls : ls ≠ []) : unlines nl ls u = unlines nl ls v ↔ u = v := by
  refine ⟨fun h => ?_, fun h => by rw [h]⟩
  have hlen := congrArg List.length h
  cases u <;> cases v <;> simp [unlines, hls] at hlen ⊢

/-- Lines put together in two parts : those of the first part all end in the separator. -/
theorem unlines_append {ls' : List (List α)} (hls' : ls' ≠ []) :
    unlines nl (ls ++ ls') u = unlines nl ls false ++ unlines nl ls' u := by
  induction ls with
  | nil => simp [unlines]
  | cons l ls ih =>
    have hcons : ∀ (rest : List (List α)) (v : Bool), rest ≠ [] →
        unlines nl (l :: rest) v = l ++ nl :: unlines nl rest v := by
      intro rest v hrest
      obtain ⟨l', rest, rfl⟩ := List.exists_cons_of_ne_nil hrest
      simp only [unlines, reduceCtorEq, if_false, intercalate_cons_cons]
      split_ifs <;> simp
    rw [List.cons_append, hcons _ _ (by simp [hls']), ih]
    by_cases hnil : ls = []
    · subst hnil
      simp [unlines, List.intercalate]
    · rw [hcons _ _ hnil]
      simp

theorem lines_eq_nil : lines nl s = [] ↔ s = [] := by
  constructor
  · intro h
    have hjoin := @unlines_lines _ _ nl s
    rw [h] at hjoin
    exact hjoin.symm
  · rintro rfl
    simp [lines]

/-- The last line of an unterminated text is not empty. -/
theorem getLast?_lines_of_unterminated (h : Unterminated nl s) :
    (lines nl s).getLast? ≠ some [] := by
  obtain ⟨hne, hend⟩ := h
  intro hempty
  unfold lines at hempty
  rw [if_neg hne, if_neg hend] at hempty
  obtain ⟨init, hinit⟩ := List.getLast?_eq_some_iff.mp hempty
  have hjoin : [nl].intercalate (s.splitOn nl) = s := List.intercalate_splitOn nl
  rw [hinit] at hjoin
  cases hcases : init with
  | nil =>
    rw [hcases] at hjoin
    exact hne (by simpa [List.intercalate] using hjoin.symm)
  | cons l ls =>
    have hconcat : ∀ l ls,
        [nl].intercalate (l :: ls ++ [[]]) = [nl].intercalate (l :: ls) ++ [nl] := by
      intro l ls
      induction ls generalizing l with
      | nil => simp [List.intercalate]
      | cons l' ls ih =>
        rw [List.cons_append, List.cons_append, intercalate_cons_cons, ← List.cons_append, ih,
          intercalate_cons_cons]
        simp
    rw [hcases, hconcat] at hjoin
    rw [← hjoin] at hend
    simp at hend

/-- Lines are recovered from their text unless its unterminated last line is empty. -/
theorem lines_unlines_iff (hls : ∀ l ∈ ls, nl ∉ l) :
    lines nl (unlines nl ls u) = ls ↔ (u = true → ls.getLast? ≠ some []) := by
  refine ⟨fun h hu hlast => ?_, lines_unlines hls⟩
  have hne : ls ≠ [] := by
    rintro rfl
    cases hlast
  have hterminated : ¬Unterminated nl (unlines nl ls u) := fun hun =>
    getLast?_lines_of_unterminated hun (by rw [h, hlast])
  have hjoin := @unlines_lines _ _ nl (unlines nl ls u)
  rw [h, decide_eq_false hterminated] at hjoin
  have hlen := congrArg List.length hjoin
  simp [unlines, hne, hu] at hlen

/-! ## Spelling a text line by line -/

/-- A line and whether the separator ends it. -/
structure Token (α : Type*) where
  text : List α
  ended : Bool
  deriving DecidableEq

/-- The text a token stands for. -/
def Token.spell (nl : α) (t : Token α) : List α := t.text ++ if t.ended then [nl] else []

/-- The text the tokens spell. -/
def spell (nl : α) (ts : List (Token α)) : List α := ts.flatMap (Token.spell nl)

/-- The tokens are lines : none has a separator in it, and only a last one that is not empty
can lack its own. -/
def AreLines (nl : α) : List (Token α) → Prop
  | [] => True
  | [t] => nl ∉ t.text ∧ (t.ended = false → t.text ≠ [])
  | t :: t' :: ts => nl ∉ t.text ∧ t.ended = true ∧ AreLines nl (t' :: ts)

variable {t : Token α} {ts : List (Token α)}

theorem AreLines.tail (h : AreLines nl (t :: ts)) : AreLines nl ts := by
  cases ts with
  | nil => exact trivial
  | cons t' ts => exact h.2.2

theorem AreLines.not_mem (h : AreLines nl ts) : ∀ t ∈ ts, nl ∉ t.text := by
  induction ts with
  | nil => simp
  | cons t ts ih =>
    intro t' ht'
    rcases List.mem_cons.mp ht' with rfl | ht'
    · cases ts with
      | nil => exact h.1
      | cons => exact h.1
    · exact ih h.tail t' ht'

/-- A token that is not ended is the last one. -/
theorem AreLines.last (h : AreLines nl ts) {before after : List (Token α)}
    (hts : ts = before ++ t :: after) (hended : t.ended = false) :
    after = [] ∧ t.text ≠ [] := by
  induction before generalizing ts with
  | nil =>
    subst hts
    cases after with
    | nil => exact ⟨rfl, h.2 hended⟩
    | cons t' after =>
      have htrue : t.ended = true := h.2.1
      rw [hended] at htrue
      cases htrue
  | cons b before ih =>
    subst hts
    exact ih (AreLines.tail (t := b) h) rfl

theorem AreLines.eq_nil (h : AreLines nl (t :: ts)) (hended : t.ended = false) :
    ts = [] ∧ t.text ≠ [] :=
  h.last (List.nil_append _).symm hended

/-- Of two parts, only the second can have a token that is not ended, if it has any token. -/
theorem AreLines.append {ts' : List (Token α)} (h : AreLines nl (ts ++ ts')) :
    AreLines nl ts ∧ AreLines nl ts' ∧ ∀ t ∈ ts, t.ended = false → ts' = [] := by
  induction ts with
  | nil => exact ⟨trivial, h, by simp⟩
  | cons t ts ih =>
    obtain ⟨hts, hts', hended⟩ := ih h.tail
    refine ⟨?_, hts', ?_⟩
    · cases ts with
      | nil =>
        refine ⟨AreLines.not_mem h t (List.mem_cons_self ..), fun hfalse => ?_⟩
        exact (h.eq_nil hfalse).2
      | cons t' ts => exact ⟨h.1, h.2.1, hts⟩
    · intro t' ht' hfalse
      rcases List.mem_cons.mp ht' with rfl | ht'
      · exact (List.append_eq_nil_iff.mp (h.eq_nil hfalse).1).2
      · exact hended t' ht' hfalse

/-- A token that is not ended is the last one. -/
theorem AreLines.exists_iff (h : AreLines nl ts) : (∃ t ∈ ts, t.ended = false) ↔
    ∃ t, ts.getLast? = some t ∧ t.ended = false := by
  constructor
  · rintro ⟨t, ht, hfalse⟩
    obtain ⟨before, after, rfl⟩ := List.append_of_mem ht
    obtain ⟨rfl, -⟩ := h.last rfl hfalse
    exact ⟨t, by simp, hfalse⟩
  · rintro ⟨t, hlast, hfalse⟩
    exact ⟨t, List.mem_of_getLast? hlast, hfalse⟩

/-- Every token spells something. -/
theorem AreLines.length_le (h : AreLines nl ts) : ts.length ≤ (spell nl ts).length := by
  induction ts with
  | nil => exact Nat.le_refl _
  | cons t ts ih =>
    have htail := ih h.tail
    have hpos : 0 < (t.spell nl).length := by
      unfold Token.spell
      cases hended : t.ended with
      | true => simp
      | false =>
        have hne := (h.eq_nil hended).2
        simpa using List.length_pos_iff.mpr hne
    simp only [spell, List.flatMap_cons, List.length_append, List.length_cons] at htail ⊢
    omega

/-- What tokens spell is put together from their lines. -/
theorem spell_eq_unlines (h : AreLines nl ts) :
    spell nl ts = unlines nl (ts.map Token.text) (ts.getLast?.any fun t => !t.ended) := by
  induction ts with
  | nil => simp [spell, unlines]
  | cons t ts ih =>
    cases ts with
    | nil => cases hended : t.ended <;> simp [spell, Token.spell, unlines, hended, List.intercalate]
    | cons t' ts =>
      have htail := ih h.2.2
      have hspell : spell nl (t :: t' :: ts) = t.text ++ nl :: spell nl (t' :: ts) := by
        simp [spell, Token.spell, h.2.1]
      rw [hspell, htail, List.getLast?_cons_cons]
      unfold unlines
      simp only [List.map_cons, reduceCtorEq, if_false, intercalate_cons_cons]
      split_ifs <;> simp

theorem getLast?_text_ne_nil (h : AreLines nl ts)
    (hlast : (ts.getLast?.any fun t => !t.ended) = true) :
    (ts.map Token.text).getLast? ≠ some [] := by
  rw [List.getLast?_map]
  cases hl : ts.getLast? with
  | none => simp [hl] at hlast
  | some t =>
    rw [hl] at hlast
    obtain ⟨init, hinit⟩ := List.getLast?_eq_some_iff.mp hl
    simpa using (h.last hinit (by simpa using hlast)).2

/-- The lines of a spelled text are the tokens'. -/
theorem lines_spell (h : AreLines nl ts) : lines nl (spell nl ts) = ts.map Token.text := by
  rw [spell_eq_unlines h]
  refine lines_unlines (fun l hl => ?_) (getLast?_text_ne_nil h)
  obtain ⟨t, ht, rfl⟩ := List.mem_map.mp hl
  exact h.not_mem t ht

/-- A spelled text is unterminated when its last token is not ended. -/
theorem unterminated_spell (h : AreLines nl ts) :
    Unterminated nl (spell nl ts) ↔ ∃ t, ts.getLast? = some t ∧ t.ended = false := by
  rw [spell_eq_unlines h, unterminated_unlines (fun l hl => ?_) (getLast?_text_ne_nil h)]
  · cases hl : ts.getLast? with
    | none => simp
    | some t =>
      have hne : ts.map Token.text ≠ [] := by
        intro hnil
        rw [List.map_eq_nil_iff.mp hnil] at hl
        cases hl
      simp [hne]
  · obtain ⟨t, ht, rfl⟩ := List.mem_map.mp hl
    exact h.not_mem t ht

end TextLines
