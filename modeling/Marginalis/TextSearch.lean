import Mathlib.Data.List.Infix
import Mathlib.Data.List.TakeWhile
import Marginalis.LibraryRequests
import Marginalis.Noninterference

/-!
# Search by text

Notes and items are searched with a `LIKE` pattern made of the text in lower case. The text is
lowered as Unicode has it and the columns as SQLite has it, which is for ASCII letters only, and
the tags are searched in their JSON text. `LIKE` ends both at a U+0000, and refuses a pattern that
is too long.

A search finds every text in which the lowered text occurs up to the case of ASCII letters
(`Spells`). `search_law_iff` says when the searches are answered with every note and item in which
the text occurs, and only those in which it occurs up to the case of letters.
-/

namespace Marginalis

open Table (orderBy)

/-! ## Occurrence -/

section Occurrence

variable {α : Type} {p l r : List α} {c : α}

/-- An element that a part does not have is on one side of it. -/
theorem infix_append_cons (hc : c ∉ p) : p <:+: l ++ c :: r ↔ p <:+: l ∨ p <:+: r := by
  refine ⟨fun h => ?_, ?_⟩
  · rcases List.infix_append_iff.mp h with h | h | ⟨first, second, rfl, hfirst, hsecond⟩
    · exact Or.inl h
    · rcases List.infix_cons_iff.mp h with h | h
      · rcases List.prefix_cons_iff.mp h with rfl | ⟨rest, rfl, -⟩
        · exact Or.inl (List.nil_infix)
        · exact absurd List.mem_cons_self hc
      · exact Or.inr h
    · rcases List.prefix_cons_iff.mp hsecond with rfl | ⟨rest, rfl, -⟩
      · rw [List.append_nil]
        exact Or.inl hfirst.isInfix
      · exact absurd (List.mem_append_right first List.mem_cons_self) hc
  · rintro (h | h)
    · exact h.trans (List.prefix_append l (c :: r)).isInfix
    · exact h.trans ((List.suffix_cons c r).trans (List.suffix_append l (c :: r))).isInfix

theorem infix_cons_of_notMem (hc : c ∉ p) : p <:+: c :: r ↔ p <:+: r := by
  have h := infix_append_cons (l := []) (r := r) hc
  rw [List.nil_append] at h
  rw [h, List.infix_nil]
  exact ⟨fun h => h.elim (fun heq => heq ▸ List.nil_infix) id, Or.inr⟩

end Occurrence

/-! ## The pattern -/

theorem toLower_toLower (c : Char) : c.toLower.toLower = c.toLower := by
  have hnot : ¬(c.toLower.val ≥ 'A'.val ∧ c.toLower.val ≤ 'Z'.val) := by
    unfold Char.toLower
    by_cases h : c.val ≥ 'A'.val ∧ c.val ≤ 'Z'.val
    · rw [dif_pos h]
      simp only [ge_iff_le, UInt32.le_iff_toNat_le, UInt32.toNat_add] at h ⊢
      have hfirst : ('A'.val).toNat = 65 := rfl
      have hlast : ('Z'.val).toNat = 90 := rfl
      have hstep : ('a'.val - 'A'.val).toNat = 32 := rfl
      omega
    · rwa [dif_neg h]
  exact dif_neg hnot

theorem map_toLower_toLower (text : List Char) :
    (text.map Char.toLower).map Char.toLower = text.map Char.toLower := by
  rw [List.map_map]
  exact List.map_congr_left fun c _ => toLower_toLower c

theorem toLower_eq_nul {c : Char} : c.toLower = '\x00' ↔ c = '\x00' := by
  refine ⟨fun h => ?_, ?_⟩
  swap
  · rintro rfl
    rfl
  unfold Char.toLower at h
  by_cases hc : c.val ≥ 'A'.val ∧ c.val ≤ 'Z'.val
  · rw [dif_pos hc] at h
    have hval := congrArg (fun c : Char => c.val.toNat) h
    simp only [ge_iff_le, UInt32.le_iff_toNat_le, UInt32.toNat_add] at hc hval
    have hfirst : ('A'.val).toNat = 65 := rfl
    have hlast : ('Z'.val).toNat = 90 := rfl
    have hstep : ('a'.val - 'A'.val).toNat = 32 := rfl
    have hnul : ('\x00'.val).toNat = 0 := rfl
    omega
  · rwa [dif_neg hc] at h

theorem nul_mem_map_toLower {text : List Char} :
    '\x00' ∈ text.map Char.toLower ↔ '\x00' ∈ text := by
  simp [List.mem_map, toLower_eq_nul]

theorem untilNul_cons_of_ne {c : Char} (text : List Char) (h : c ≠ '\x00') :
    untilNul (c :: text) = c :: untilNul text :=
  List.takeWhile_cons_of_pos (decide_eq_true h)

theorem untilNul_of_notMem {text : List Char} (h : '\x00' ∉ text) : untilNul text = text :=
  List.takeWhile_eq_self_iff.mpr fun _ hc => decide_eq_true (ne_of_mem_of_not_mem hc h)

theorem isPrefix_untilNul (text : List Char) : untilNul text <+: text := List.takeWhile_prefix _

theorem untilNul_map_toLower (text : List Char) :
    untilNul (text.map Char.toLower) = (untilNul text).map Char.toLower := by
  rw [untilNul, List.takeWhile_map]
  congr 2
  funext c
  simp [toLower_eq_nul]

/-- What `like_contains_pattern` writes for a text. -/
def likeEscaped (text : List Char) : List Char :=
  text.flatMap fun c => if c = '!' ∨ c = '%' ∨ c = '_' then ['!', c] else [c]

theorem nul_mem_likeEscaped {text : List Char} : '\x00' ∈ likeEscaped text ↔ '\x00' ∈ text := by
  rw [likeEscaped, List.mem_flatMap]
  refine ⟨fun ⟨c, hc, hmem⟩ => ?_, fun h => ⟨_, h, by decide⟩⟩
  by_cases hspecial : c = '!' ∨ c = '%' ∨ c = '_'
  · rw [if_pos hspecial] at hmem
    simp only [List.mem_cons, List.not_mem_nil, or_false] at hmem
    exact hmem.elim (fun h => absurd h (by decide)) fun h => h ▸ hc
  · rw [if_neg hspecial, List.mem_singleton] at hmem
    exact hmem ▸ hc

/-- A pattern ends where its text has a U+0000, without the wildcard behind it. -/
theorem untilNul_likeEscaped {text : List Char} (h : '\x00' ∈ text) (tail : List Char) :
    untilNul (likeEscaped text ++ tail) = likeEscaped (untilNul text) := by
  induction text with
  | nil => cases h
  | cons c text ih =>
    by_cases hc : c = '\x00'
    · subst hc
      rfl
    · have htail := ih ((List.mem_cons.mp h).resolve_left (Ne.symm hc))
      unfold likeEscaped at htail ⊢
      rw [untilNul_cons_of_ne text hc, List.flatMap_cons, List.append_assoc, List.flatMap_cons,
        ← htail]
      by_cases hspecial : c = '!' ∨ c = '%' ∨ c = '_'
      · rw [if_pos hspecial]
        exact (untilNul_cons_of_ne _ (by decide)).trans
          (congrArg (List.cons '!') (untilNul_cons_of_ne _ hc))
      · rw [if_neg hspecial]
        exact untilNul_cons_of_ne _ hc

/-- The pattern spells its text out. -/
theorem likeTokens_escaped (text tail : List Char) :
    likeTokens (likeEscaped text ++ tail) =
      (likeTokens tail).map (text.map LikeToken.character ++ ·) := by
  induction text with
  | nil => simp [likeEscaped]
  | cons c text ih =>
    unfold likeEscaped at ih ⊢
    rw [List.flatMap_cons, List.append_assoc]
    by_cases hc : c = '!' ∨ c = '%' ∨ c = '_'
    · rw [if_pos hc]
      simp [likeTokens, ih, Function.comp_def]
    · rw [if_neg hc]
      push Not at hc
      simp [likeTokens, hc, ih, Function.comp_def]

theorem likeMatches_prefix (part text : List Char) :
    likeMatches (part.map LikeToken.character ++ [.anySequence]) text = true ↔
      part.map Char.toLower <+: text.map Char.toLower := by
  induction part generalizing text with
  | nil =>
    refine iff_of_true ?_ List.nil_prefix
    simp [likeMatches, List.mem_tails]
  | cons c part ih =>
    cases text with
    | nil => simp [likeMatches]
    | cons d text => simp [likeMatches, ih, List.cons_prefix_cons]

theorem likeMatches_all (part text : List Char) :
    likeMatches (part.map LikeToken.character) text = true ↔
      part.map Char.toLower = text.map Char.toLower := by
  induction part generalizing text with
  | nil => cases text <;> simp [likeMatches]
  | cons c part ih =>
    cases text with
    | nil => simp [likeMatches]
    | cons d text => simp [likeMatches, ih]

/-- The value in lower case occurs in what `LIKE` sees of the text, up to the case of ASCII
letters. A value with a U+0000 is cut there, and what is left has to stand at the end. -/
def LikeSpells (lowered text : List Char) : Prop :=
  if '\x00' ∈ lowered then untilNul lowered <:+ untilNul text else lowered <:+: untilNul text

instance (lowered text : List Char) : Decidable (LikeSpells lowered text) := by
  unfold LikeSpells
  infer_instance

/-- A text matches the pattern when it is spelled. -/
theorem sqlLike_likeContainsPattern (lib : GraphLibrary) (text value : List Char) :
    sqlLike text (likeContainsPattern lib value) = true ↔
      LikeSpells ((lib.toLowercase value).map Char.toLower) (text.map Char.toLower) := by
  have hpattern : likeContainsPattern lib value =
      '%' :: (likeEscaped (lib.toLowercase value) ++ ['%']) := rfl
  rw [LikeSpells, sqlLike, hpattern, untilNul_map_toLower, untilNul_map_toLower]
  by_cases hnul : '\x00' ∈ lib.toLowercase value
  · have huntil : untilNul ('%' :: (likeEscaped (lib.toLowercase value) ++ ['%'])) =
        '%' :: likeEscaped (untilNul (lib.toLowercase value)) := by
      rw [← untilNul_likeEscaped hnul ['%']]
      rfl
    have htokens := likeTokens_escaped (untilNul (lib.toLowercase value)) []
    rw [List.append_nil] at htokens
    rw [if_pos (nul_mem_map_toLower.mpr hnul), huntil]
    simp only [likeTokens, htokens, Option.map_some, List.append_nil, Option.any_some, likeMatches,
      List.any_eq_true, List.mem_tails, likeMatches_all]
    refine ⟨fun ⟨rest, hrest, hpart⟩ => hpart ▸ hrest.map _, fun h => ?_⟩
    obtain ⟨rest, hrest, heq⟩ := List.suffix_map_iff.mp h
    exact ⟨rest, hrest, heq⟩
  · have huntil : untilNul ('%' :: (likeEscaped (lib.toLowercase value) ++ ['%'])) =
        '%' :: (likeEscaped (lib.toLowercase value) ++ ['%']) := by
      refine untilNul_of_notMem fun hmem => hnul ?_
      simpa [nul_mem_likeEscaped] using hmem
    rw [if_neg (nul_mem_map_toLower.not.mpr hnul), huntil]
    simp only [likeTokens, likeTokens_escaped, Option.map_some, Option.any_some, likeMatches,
      List.any_eq_true, List.mem_tails, likeMatches_prefix]
    refine ⟨fun ⟨rest, hrest, hpart⟩ => hpart.isInfix.trans (hrest.map _).isInfix, fun h => ?_⟩
    obtain ⟨rest, hpart, hrest⟩ := List.infix_iff_prefix_suffix.mp h
    obtain ⟨rest, hsuffix, rfl⟩ := List.suffix_map_iff.mp hrest
    exact ⟨rest, hsuffix, hpart⟩

/-! ## Up to the case of letters -/

/-- Lower case beyond ASCII : the case of ASCII letters makes no difference, and a text in lower
case stays as it is. -/
structure GraphLibrary.LowersCase (lib : GraphLibrary) : Prop where
  empty : lib.toLowercase [] = []
  ascii : ∀ text, lib.toLowercase (text.map Char.toLower) = lib.toLowercase text
  lowered : ∀ text, lib.toLowercase (lib.toLowercase text) = lib.toLowercase text

/-- The text is one that `LIKE` finds for the query. -/
def Spells (lib : GraphLibrary) (query : List Char) (text : String) : Prop :=
  LikeSpells ((lib.toLowercase query).map Char.toLower) (sqlLower text)

instance (lib : GraphLibrary) (query : List Char) (text : String) :
    Decidable (Spells lib query text) :=
  inferInstanceAs (Decidable (LikeSpells _ _))

/-- A part of the text is the query up to the case of letters. -/
def ContainsUpToCase (lib : GraphLibrary) (query : List Char) (text : String) : Prop :=
  ∃ part, part <:+: text.toList ∧ lib.toLowercase part = lib.toLowercase query

/-- The query has letters beyond ASCII that are not in lower case. -/
def HasWideCapitals (lib : GraphLibrary) (query : List Char) : Prop :=
  lib.toLowercase query ≠ query.map Char.toLower

instance (lib : GraphLibrary) (query : List Char) : Decidable (HasWideCapitals lib query) :=
  inferInstanceAs (Decidable (_ ≠ _))

section Case

variable {lib : GraphLibrary} {query : List Char} {text : String}

theorem sqlLike_sqlLower :
    sqlLike (sqlLower text) (likeContainsPattern lib query) = true ↔ Spells lib query text := by
  rw [sqlLike_likeContainsPattern, Spells, sqlLower, map_toLower_toLower]

theorem containsUpToCase_of_inside (hlower : lib.LowersCase)
    (h : (lib.toLowercase query).map Char.toLower <:+: sqlLower text) :
    ContainsUpToCase lib query text := by
  obtain ⟨part, hpart, heq⟩ := List.infix_map_iff.mp h
  refine ⟨part, hpart, ?_⟩
  rw [← hlower.ascii part, ← heq, hlower.ascii, hlower.lowered]

theorem Spells.containsUpToCase (hlower : lib.LowersCase) (hnul : '\x00' ∉ lib.toLowercase query)
    (h : Spells lib query text) : ContainsUpToCase lib query text := by
  rw [Spells, LikeSpells, if_neg (nul_mem_map_toLower.not.mpr hnul)] at h
  exact containsUpToCase_of_inside hlower (h.trans (isPrefix_untilNul _).isInfix)

theorem spells_of_occurs (hcapitals : ¬HasWideCapitals lib query) (hquery : '\x00' ∉ query)
    (htext : '\x00' ∉ text.toList) (h : query <:+: text.toList) : Spells lib query text := by
  have hlowered : '\x00' ∉ query.map Char.toLower := nul_mem_map_toLower.not.mpr hquery
  rw [Spells, not_not.mp hcapitals, map_toLower_toLower, LikeSpells, if_neg hlowered, sqlLower,
    untilNul_of_notMem (nul_mem_map_toLower.not.mpr htext)]
  exact h.map _

theorem spells_nil (hlower : lib.LowersCase) : Spells lib [] text := by
  rw [Spells, hlower.empty, LikeSpells, if_neg (by simp)]
  exact List.nil_infix

end Case

/-! ## The text of the tags -/

/-- The character is written with an escape in a JSON string. -/
def IsEscaped (c : Char) : Prop := c = '"' ∨ c = '\\' ∨ c.toNat < 0x20

instance (c : Char) : Decidable (IsEscaped c) := inferInstanceAs (Decidable (_ ∨ _))

/-- The character stands between the tags in their JSON text. -/
def IsListSyntax (c : Char) : Prop := c = '[' ∨ c = ']' ∨ c = ',' ∨ c = '"'

instance (c : Char) : Decidable (IsListSyntax c) := inferInstanceAs (Decidable (_ ∨ _))

theorem escape_of_not_isEscaped {c : Char} (h : ¬IsEscaped c) :
    (Json.escape c).toList = [c] := by
  simp only [IsEscaped, not_or] at h
  obtain ⟨hquote, hback, hcontrol⟩ := h
  have hne : ∀ d : Char, d.toNat < 0x20 → c ≠ d := fun d hd heq => hcontrol (heq ▸ hd)
  rw [Json.escape, if_neg hquote, if_neg hback, if_neg (hne '\n' (by decide)),
    if_neg (hne '\r' (by decide)), if_neg (hne '\t' (by decide)), if_neg (by omega),
    if_neg (by omega), if_neg hcontrol]
  simp

theorem nul_notMem_escape (c : Char) : '\x00' ∉ (Json.escape c).toList := by
  have hdigit : ∀ n < 16, '\x00' ≠ Nat.digitChar n := by decide
  unfold Json.escape
  split_ifs with _ _ _ _ _ _ _ hcontrol
  all_goals try decide
  · have hlow := hdigit (c.toNat / 16) (by omega)
    have hrest := hdigit (c.toNat % 16) (by omega)
    simp [hlow, hrest]
  · rw [String.toList_singleton, List.mem_singleton]
    rintro rfl
    exact hcontrol (by decide)

theorem toList_quote (s : String) :
    (Json.quote s).toList = '"' :: (s.toList.flatMap fun c => (Json.escape c).toList) ++ ['"'] := by
  have hjoin : ∀ strings : List String,
      (String.join strings).toList = strings.flatMap String.toList := fun strings => by
    induction strings with
    | nil => rfl
    | cons first strings ih => simp [String.join_cons, ih]
  rw [Json.quote, String.toList_append, String.toList_append, hjoin, List.flatMap_map]
  rfl

theorem flatMap_escape {text : List Char} (h : ∀ c ∈ text, ¬IsEscaped c) :
    (text.flatMap fun c => (Json.escape c).toList) = text := by
  induction text with
  | nil => rfl
  | cons c text ih =>
    rw [List.flatMap_cons, escape_of_not_isEscaped (h c List.mem_cons_self),
      ih fun d hd => h d (List.mem_cons_of_mem _ hd)]
    rfl

theorem nul_notMem_quote (s : String) : '\x00' ∉ (Json.quote s).toList := by
  rw [toList_quote]
  simp [nul_notMem_escape]

theorem nul_notMem_renderElements (tags : List String) :
    '\x00' ∉ (Json.renderElements (tags.map Json.string)).toList := by
  have hstring : ∀ tag, '\x00' ∉ (Json.render (.string tag)).toList := fun tag => by
    rw [Json.render]
    exact nul_notMem_quote tag
  induction tags with
  | nil => simp [Json.renderElements]
  | cons first tags ih =>
    cases tags with
    | nil => exact hstring first
    | cons second tags =>
      rw [List.map_cons, List.map_cons, Json.renderElements, String.toList_append,
        String.toList_append]
      simp only [List.mem_append, not_or]
      exact ⟨⟨hstring first, by decide⟩, ih⟩

/-- A text without escapes is in the JSON text of what it is in. -/
theorem infix_quote {query : List Char} {tag : String} (hquery : ∀ c ∈ query, ¬IsEscaped c)
    (h : query <:+: tag.toList) : query <:+: (Json.quote tag).toList := by
  obtain ⟨before, after, heq⟩ := h
  rw [toList_quote, ← heq, List.flatMap_append, List.flatMap_append, flatMap_escape hquery]
  exact ⟨'"' :: before.flatMap fun c => (Json.escape c).toList,
    (after.flatMap fun c => (Json.escape c).toList) ++ ['"'], by simp⟩

theorem infix_renderElements {part : List Char} {tags : List String} {tag : String}
    (hmem : tag ∈ tags) (h : part <:+: (Json.quote tag).toList) :
    part <:+: (Json.renderElements (tags.map Json.string)).toList := by
  induction tags with
  | nil => cases hmem
  | cons first tags ih =>
    have hquote : (Json.render (.string first)).toList = (Json.quote first).toList := by
      rw [Json.render]
    cases tags with
    | nil =>
      obtain rfl := List.mem_singleton.mp hmem
      rw [List.map_singleton, Json.renderElements, hquote]
      exact h
    | cons second tags =>
      rw [List.map_cons, List.map_cons, Json.renderElements, String.toList_append,
        String.toList_append, hquote]
      rcases List.mem_cons.mp hmem with rfl | hmem
      · rw [List.append_assoc]
        exact h.trans (List.prefix_append _ _).isInfix
      · exact (ih hmem).trans (List.suffix_append _ _).isInfix

/-- A part that is none of the syntax of the list is in one of the tags. -/
theorem infix_of_renderElements {part : List Char} {tags : List String}
    (hpart : ∀ c ∈ part, ¬IsListSyntax c) (htags : ∀ tag ∈ tags, ∀ c ∈ tag.toList, ¬IsEscaped c)
    (h : part <:+: ((Json.renderElements (tags.map Json.string)).toList).map Char.toLower) :
    part = [] ∨ ∃ tag ∈ tags, part <:+: sqlLower tag := by
  have hquote : '"' ∉ part := fun hmem => hpart _ hmem (Or.inr (Or.inr (Or.inr rfl)))
  have hcomma : ',' ∉ part := fun hmem => hpart _ hmem (Or.inr (Or.inr (Or.inl rfl)))
  have hstring : ∀ tag ∈ tags, part <:+: (Json.render (.string tag)).toList.map Char.toLower →
      part = [] ∨ part <:+: sqlLower tag := by
    intro tag htag hinfix
    rw [Json.render, toList_quote, flatMap_escape (htags tag htag), List.cons_append,
      List.map_cons, List.map_append] at hinfix
    have hinner := (infix_cons_of_notMem hquote).mp hinfix
    rcases (infix_append_cons (r := []) hquote).mp hinner with hinner | hinner
    · exact Or.inr hinner
    · exact Or.inl (List.infix_nil.mp hinner)
  induction tags with
  | nil => exact Or.inl (List.infix_nil.mp (by simpa [Json.renderElements] using h))
  | cons first tags ih =>
    have hfirst := hstring first List.mem_cons_self
    cases tags with
    | nil =>
      rw [List.map_singleton, Json.renderElements] at h
      exact (hfirst h).imp_right fun hin => ⟨first, List.mem_cons_self, hin⟩
    | cons second tags =>
      rw [List.map_cons, List.map_cons, Json.renderElements, String.toList_append,
        String.toList_append, List.append_assoc, List.map_append, List.map_append] at h
      rcases (infix_append_cons hcomma).mp h with h | h
      · exact (hfirst h).imp_right fun hin => ⟨first, List.mem_cons_self, hin⟩
      · refine (ih (fun tag htag => htags tag (List.mem_cons_of_mem _ htag)) h
          fun tag htag => hstring tag (List.mem_cons_of_mem _ htag)).imp_right ?_
        rintro ⟨tag, htag, hin⟩
        exact ⟨tag, List.mem_cons_of_mem _ htag, hin⟩

/-! ## Notes -/

namespace NoteRow

variable (lib : GraphLibrary) (query : List Char) (row : NoteRow)

/-- What a search of notes is for : the title, the source and the tags. -/
def texts : List String := row.title :: row.source :: row.tags

/-- What it looks at : the title, the source and the JSON text of the tags. -/
def searchedColumns : List String := [row.title, row.source, lib.tagsJson row.tags]

/-- The query occurs in the note, which no column spells as it is lowered : the query has
capitals beyond ASCII or a character that the JSON text of the tags escapes, or the title or the
source has a U+0000. -/
def Missed : Prop :=
  (HasWideCapitals lib query ∨ (∃ c ∈ query, IsEscaped c) ∨
      '\x00' ∈ row.title.toList ∨ '\x00' ∈ row.source.toList) ∧
    (∃ text ∈ row.texts, query <:+: text.toList) ∧
    ∀ column ∈ row.searchedColumns lib, ¬Spells lib query column

instance : Decidable (row.Missed lib query) :=
  haveI : Decidable (∃ c ∈ query, IsEscaped c) := List.decidableBEx IsEscaped query
  inferInstanceAs (Decidable (_ ∧ _ ∧ _))

/-- A column spells the query, which none of the texts contains : the query has syntax of the list
or a U+0000, or a tag has a character that is escaped. -/
def Stray : Prop :=
  ((∃ c ∈ (lib.toLowercase query).map Char.toLower, IsListSyntax c) ∨
      '\x00' ∈ lib.toLowercase query ∨ ∃ tag ∈ row.tags, ∃ c ∈ tag.toList, IsEscaped c) ∧
    (∃ column ∈ row.searchedColumns lib, Spells lib query column) ∧
    ∀ text ∈ row.texts, ¬ContainsUpToCase lib query text

end NoteRow

/-- The JSON text of a list of tags is the compact one. -/
def GraphLibrary.WritesTags (lib : GraphLibrary) : Prop :=
  ∀ tags, lib.tagsJson tags = Json.render (.array (tags.map Json.string))

section Notes

variable {lib : GraphLibrary} {query : List Char} {row : NoteRow}

theorem nul_notMem_tagsJson (hjson : lib.WritesTags) (tags : List String) :
    '\x00' ∉ (lib.tagsJson tags).toList := by
  rw [hjson, Json.render, String.toList_append, String.toList_append]
  simp only [List.mem_append, not_or]
  exact ⟨⟨by decide, nul_notMem_renderElements tags⟩, by decide⟩

/-- A note that contains the query is missed unless a column spells it. -/
theorem exists_spells (hjson : lib.WritesTags)
    (hcontains : ∃ text ∈ row.texts, query <:+: text.toList) (hmissed : ¬row.Missed lib query) :
    ∃ column ∈ row.searchedColumns lib, Spells lib query column := by
  by_contra hnone
  push Not at hnone
  have hplain := fun hkind => hmissed ⟨hkind, hcontains, hnone⟩
  obtain ⟨hcapitals, hplain⟩ := not_or.mp hplain
  obtain ⟨hescaped, hnul⟩ := not_or.mp hplain
  obtain ⟨htitle, hsource⟩ := not_or.mp hnul
  have hquery : '\x00' ∉ query := fun hmem =>
    hescaped ⟨_, hmem, Or.inr (Or.inr (by decide))⟩
  obtain ⟨text, htext, hin⟩ := hcontains
  rcases List.mem_cons.mp htext with rfl | htext
  · exact hnone _ List.mem_cons_self (spells_of_occurs hcapitals hquery htitle hin)
  rcases List.mem_cons.mp htext with rfl | htext
  · exact hnone _ (List.mem_cons_of_mem _ List.mem_cons_self)
      (spells_of_occurs hcapitals hquery hsource hin)
  · refine hnone (lib.tagsJson row.tags) (by simp [NoteRow.searchedColumns])
      (spells_of_occurs hcapitals hquery (nul_notMem_tagsJson hjson _) ?_)
    have hquote := infix_quote (fun c hc hesc => hescaped ⟨c, hc, hesc⟩) hin
    rw [hjson, Json.render, String.toList_append, String.toList_append]
    exact (infix_renderElements htext hquote).trans
      ((List.suffix_append _ _).isInfix.trans (List.prefix_append _ _).isInfix)

/-- A note that a column spells contains the query up to case unless it is a stray one. -/
theorem exists_containsUpToCase (hlower : lib.LowersCase) (hjson : lib.WritesTags)
    (hspells : ∃ column ∈ row.searchedColumns lib, Spells lib query column)
    (hstray : ¬row.Stray lib query) : ∃ text ∈ row.texts, ContainsUpToCase lib query text := by
  by_contra hnone
  push Not at hnone
  have hplain := fun hkind => hstray ⟨hkind, hspells, hnone⟩
  obtain ⟨hlist, hplain⟩ := not_or.mp hplain
  obtain ⟨hnul, hescaped⟩ := not_or.mp hplain
  push Not at hlist hescaped
  obtain ⟨column, hcolumn, hin⟩ := hspells
  simp only [NoteRow.searchedColumns, List.mem_cons, List.not_mem_nil, or_false] at hcolumn
  rcases hcolumn with rfl | rfl | rfl
  · exact hnone _ List.mem_cons_self (hin.containsUpToCase hlower hnul)
  · exact hnone _ (List.mem_cons_of_mem _ List.mem_cons_self) (hin.containsUpToCase hlower hnul)
  · rw [Spells, LikeSpells, if_neg (nul_mem_map_toLower.not.mpr hnul)] at hin
    have hin := hin.trans (isPrefix_untilNul _).isInfix
    rw [hjson, Json.render, sqlLower, String.toList_append, String.toList_append,
      List.map_append, List.map_append] at hin
    have hbracket : ∀ c, IsListSyntax c → c ∉ (lib.toLowercase query).map Char.toLower :=
      fun c hc hmem => hlist c hmem hc
    have hinner := (infix_append_cons (r := []) (hbracket ']' (Or.inr (Or.inl rfl)))).mp hin
    have hempty : (lib.toLowercase query).map Char.toLower = [] → False := by
      intro heq
      refine hnone row.title List.mem_cons_self ⟨[], List.nil_infix, ?_⟩
      rw [hlower.empty, List.map_eq_nil_iff.mp heq]
    rcases hinner with hinner | hinner
    · have helements := (infix_cons_of_notMem (hbracket '[' (Or.inl rfl))).mp hinner
      rcases infix_of_renderElements hlist hescaped helements with heq | ⟨tag, hmem, hintag⟩
      · exact hempty heq
      · exact hnone tag (List.mem_cons_of_mem _ (List.mem_cons_of_mem _ hmem))
          (containsUpToCase_of_inside hlower hintag)
    · exact hempty (List.infix_nil.mp hinner)

end Notes

theorem eq_corruptData_of_citedWorks {lib : GraphLibrary} {items : List CitedItem}
    {e : SqliteStoreError} (h : citedWorks lib items = .error e) : e = .corruptData := by
  rcases Except.bind_eq_error.mp h with h | ⟨works, -, h⟩
  · obtain ⟨item, -, works, h⟩ := Except.exists_of_foldlM_error h
    rcases Except.bind_eq_error.mp h with h | ⟨title, -, h⟩
    · unfold CitedItem.title at h
      split at h
      · cases h
      · split at h
        · exact (Except.error.inj h).symm
        · cases h
    · cases h
  · cases h

namespace Database

variable {db : Database} {lib : GraphLibrary} {actor : Actor}

theorem matchesText_graphPattern (hlower : lib.LowersCase) {q : String} {row : NoteRow} :
    row.MatchesText lib (graphPattern lib (some q)) ↔
      ∃ column ∈ row.searchedColumns lib, Spells lib (trim q.toList) column := by
  rw [NoteRow.MatchesText, graphPattern, Option.map_some]
  by_cases hblank : trim q.toList = []
  · rw [Option.filter_some_neg (by simpa using hblank), hblank]
    refine iff_of_true (fun p hp => nomatch hp) ⟨row.title, List.mem_cons_self, spells_nil hlower⟩
  · rw [Option.filter_some_pos (by simpa using hblank)]
    simp [NoteRow.searchedColumns, sqlLike_sqlLower]

/-- The notes of the graph. -/
theorem mem_graphNotes {pattern : Option (List Char)} {note : NoteGraphNote} :
    note ∈ db.graphNotes lib actor.principalId pattern ↔
      ∃ row ∈ db.notes, db.ActiveFor actor.principalId row ∧ row.MatchesText lib pattern ∧
        note = ⟨row.noteId, row.title, row.tags, row.updatedAt⟩ := by
  simp only [graphNotes, List.mem_map, List.mem_flatMap, Table.mem_orderBy, Table.mem_select,
    decide_eq_true_eq, ActiveFor, hasAccess_iff, Nat.zero_le, and_true]
  constructor
  · rintro ⟨_, ⟨row, ⟨hrow, hactive, htext⟩, access, haccess, rfl⟩, rfl⟩
    exact ⟨row, hrow, ⟨hactive, access, haccess⟩, htext, rfl⟩
  · rintro ⟨row, hrow, ⟨hactive, access, haccess⟩, htext, rfl⟩
    exact ⟨row, ⟨row, ⟨hrow, hactive, htext⟩, access, haccess, rfl⟩, rfl⟩

theorem noteGraph_notes {query : NoteGraphQuery} {graph : NoteGraph}
    (h : db.noteGraph lib actor query = .ok graph) :
    graph.notes = db.graphNotes lib actor.principalId (graphPattern lib query.text) := by
  rw [noteGraph] at h
  obtain ⟨notes, hnotes, h⟩ := Except.bind_eq_ok.mp h
  obtain ⟨works, -, hgraph⟩ := Except.bind_eq_ok.mp h
  obtain rfl := Except.ok.inj hgraph
  unfold queryGraphNotes at hnotes
  split_ifs at hnotes
  exact (Except.ok.inj hnotes).symm

/-- A note that the actor sees is compared with a pattern that is too long. -/
def GraphRefused (db : Database) (lib : GraphLibrary) (actor : Actor) (query : List Char) : Prop :=
  LikeTooComplex (likeContainsPattern lib query) ∧ query ≠ [] ∧
    ∃ row ∈ db.notes, db.ActiveFor actor.principalId row

theorem refused_iff {q : String} :
    (∃ p ∈ graphPattern lib (some q), LikeTooComplex p) ∧
        db.graphNotes lib actor.principalId none ≠ [] ↔
      db.GraphRefused lib actor (trim q.toList) := by
  have hpattern : (∃ p ∈ graphPattern lib (some q), LikeTooComplex p) ↔
      LikeTooComplex (likeContainsPattern lib (trim q.toList)) ∧ trim q.toList ≠ [] := by
    rw [graphPattern, Option.map_some]
    by_cases hblank : trim q.toList = []
    · rw [Option.filter_some_neg (by simpa using hblank)]
      simp [hblank]
    · rw [Option.filter_some_pos (by simpa using hblank)]
      simp [hblank]
  have hnotes : db.graphNotes lib actor.principalId none ≠ [] ↔
      ∃ row ∈ db.notes, db.ActiveFor actor.principalId row := by
    constructor
    · intro hne
      obtain ⟨note, hnote⟩ := List.exists_mem_of_ne_nil _ hne
      obtain ⟨row, hrow, hactive, -⟩ := mem_graphNotes.mp hnote
      exact ⟨row, hrow, hactive⟩
    · rintro ⟨row, hrow, hactive⟩
      have htext : row.MatchesText lib none := fun _ hp => nomatch hp
      exact List.ne_nil_of_mem (mem_graphNotes.mpr ⟨row, hrow, hactive, htext, rfl⟩)
  rw [hpattern, hnotes, GraphRefused, and_assoc]

/-- Only a refused pattern, or a corrupt item, keeps a graph from being answered. -/
theorem exists_noteGraph_iff {q : String} {query : NoteGraphQuery} (hquery : query.text = some q)
    (hcorrupt : db.noteGraph lib actor query ≠ .error .corruptData) :
    (∃ graph, db.noteGraph lib actor query = .ok graph) ↔
      ¬db.GraphRefused lib actor (trim q.toList) := by
  rw [← refused_iff]
  unfold noteGraph at hcorrupt ⊢
  rw [hquery] at hcorrupt ⊢
  unfold queryGraphNotes at hcorrupt ⊢
  split_ifs at hcorrupt ⊢ with hrefused
  · refine iff_of_false (fun ⟨graph, h⟩ => ?_) (not_not.mpr hrefused)
    cases h
  · refine iff_of_true ?_ hrefused
    cases hworks : citedWorks lib ((db.graphCitations actor.principalId).filter fun item =>
        decide (item.citation.sourceNoteId ∈ (db.graphNotes lib actor.principalId
          (graphPattern lib (some q))).map NoteGraphNote.noteId)) with
    | ok works =>
      exact ⟨_, Except.bind_eq_ok.mpr ⟨_, rfl, Except.bind_eq_ok.mpr ⟨works, hworks, rfl⟩⟩⟩
    | error e =>
      obtain rfl := eq_corruptData_of_citedWorks hworks
      exact absurd (Except.bind_eq_error.mpr
        (Or.inr ⟨_, rfl, Except.bind_eq_error.mpr (Or.inl hworks)⟩)) hcorrupt

/-- The graph has every note that contains the query, and only such up to the case of letters. -/
def NotesFound (db : Database) (lib : GraphLibrary) (actor : Actor) (query : List Char)
    (graph : NoteGraph) : Prop :=
  (∀ row ∈ db.notes, db.ActiveFor actor.principalId row →
    (∃ text ∈ row.texts, query <:+: text.toList) → ∃ note ∈ graph.notes, note.noteId = row.noteId) ∧
  ∀ note ∈ graph.notes, ∃ row ∈ db.notes, db.ActiveFor actor.principalId row ∧
    row.noteId = note.noteId ∧ ∃ text ∈ row.texts, ContainsUpToCase lib query text

theorem notesFound_iff (hlower : lib.LowersCase) (hjson : lib.WritesTags) {q : String}
    {query : NoteGraphQuery} {graph : NoteGraph} (hquery : query.text = some q)
    (h : db.noteGraph lib actor query = .ok graph) :
    db.NotesFound lib actor (trim q.toList) graph ↔
      ∀ row ∈ db.notes, db.ActiveFor actor.principalId row →
        ¬row.Missed lib (trim q.toList) ∧ ¬row.Stray lib (trim q.toList) := by
  have hnotes := noteGraph_notes h
  rw [hquery] at hnotes
  have hfound : ∀ {row}, row ∈ db.notes → db.ActiveFor actor.principalId row →
      (∃ column ∈ row.searchedColumns lib, Spells lib (trim q.toList) column) →
      ⟨row.noteId, row.title, row.tags, row.updatedAt⟩ ∈ graph.notes := by
    intro row hrow hactive hspells
    rw [hnotes, mem_graphNotes]
    exact ⟨row, hrow, hactive, (matchesText_graphPattern hlower).mpr hspells, rfl⟩
  have hspelled : ∀ {note}, note ∈ graph.notes → ∃ row ∈ db.notes,
      db.ActiveFor actor.principalId row ∧ row.noteId = note.noteId ∧
        ∃ column ∈ row.searchedColumns lib, Spells lib (trim q.toList) column := by
    intro note hnote
    rw [hnotes, mem_graphNotes] at hnote
    obtain ⟨row, hrow, hactive, htext, rfl⟩ := hnote
    exact ⟨row, hrow, hactive, rfl, (matchesText_graphPattern hlower).mp htext⟩
  constructor
  · rintro ⟨hcomplete, hsound⟩ row hrow hactive
    refine ⟨fun ⟨_, hcontains, hnone⟩ => ?_, fun ⟨_, hspells, hnone⟩ => ?_⟩
    · obtain ⟨note, hnote, hid⟩ := hcomplete row hrow hactive hcontains
      obtain ⟨row', hrow', -, hid', column, hcolumn, hspells⟩ := hspelled hnote
      obtain rfl := Table.eq_of_key_eq hrow' hrow (hid'.trans hid)
      exact hnone column hcolumn hspells
    · have hnote := hfound hrow hactive hspells
      obtain ⟨row', hrow', -, hid, text, htext, hcontains⟩ := hsound _ hnote
      obtain rfl := Table.eq_of_key_eq hrow' hrow hid
      exact hnone text htext hcontains
  · intro hplain
    refine ⟨fun row hrow hactive hcontains => ?_, fun note hnote => ?_⟩
    · exact ⟨_, hfound hrow hactive
        (exists_spells hjson hcontains (hplain row hrow hactive).1), rfl⟩
    · obtain ⟨row, hrow, hactive, hid, hspells⟩ := hspelled hnote
      exact ⟨row, hrow, hactive, hid,
        exists_containsUpToCase hlower hjson hspells (hplain row hrow hactive).2⟩

/-! ## Items -/

/-- The items of the owner whose citation key or CSL-JSON text spells the query. -/
def spelledItems (db : Database) (lib : GraphLibrary) (actor : Actor) (query : List Char) :
    List BibliographyItemRow :=
  db.bibliographyItems.select fun row => row.owner = actor.principalId ∧
    (Spells lib query row.citationKey ∨ Spells lib query row.cslJson)

/-- The query occurs in an item that does not spell it : the query has capitals beyond ASCII or a
U+0000, or the item has one. Fewer items than the limit spell it. -/
def MissedItem (db : Database) (lib : GraphLibrary) (actor : Actor) (query : List Char)
    (row : BibliographyItemRow) : Prop :=
  (HasWideCapitals lib query ∨ '\x00' ∈ query ∨ '\x00' ∈ row.citationKey.toList ∨
      '\x00' ∈ row.cslJson.toList) ∧
    (query <:+: row.citationKey.toList ∨ query <:+: row.cslJson.toList) ∧
    ¬Spells lib query row.citationKey ∧ ¬Spells lib query row.cslJson ∧
    (db.spelledItems lib actor query).length < 200

/-- The item spells a query with a U+0000 that does not occur in it, and fewer items than the limit
come before it. -/
def StrayItem (db : Database) (lib : GraphLibrary) (actor : Actor) (query : List Char)
    (row : BibliographyItemRow) : Prop :=
  '\x00' ∈ lib.toLowercase query ∧
    (Spells lib query row.citationKey ∨ Spells lib query row.cslJson) ∧
    ¬ContainsUpToCase lib query row.citationKey ∧ ¬ContainsUpToCase lib query row.cslJson ∧
    ((db.spelledItems lib actor query).filter fun other =>
      listingKey other < listingKey row).length < 200

/-- An item of the actor is compared with a pattern that is too long. -/
def SearchRefused (db : Database) (lib : GraphLibrary) (actor : Actor) (query : List Char) :
    Prop :=
  LikeTooComplex (likeContainsPattern lib query) ∧ query ≠ [] ∧ ∃ row ∈ db.bibliographyItems,
    row.owner = actor.principalId ∧ (db.itemDetails row).isSome

/-- The result has every item of the owner that contains the query, or is as long as the limit,
and only such items up to the case of letters. -/
def ItemsFound {json : JsonCodec} (db : Database) (lib : GraphLibrary) (actor : Actor)
    (query : List Char) (items : List (BibliographyItem json)) : Prop :=
  (∀ row ∈ db.bibliographyItems, row.owner = actor.principalId → (db.itemDetails row).isSome →
    query <:+: row.citationKey.toList ∨ query <:+: row.cslJson.toList →
      (∃ item ∈ items, item.itemId = row.itemId) ∨ items.length = 200) ∧
  ∀ item ∈ items, ∃ row ∈ db.bibliographyItems, row.owner = actor.principalId ∧
    row.itemId = item.itemId ∧
    (ContainsUpToCase lib query row.citationKey ∨ ContainsUpToCase lib query row.cslJson)

/-- An element is among the first ones in order when few others come before it. -/
theorem mem_take_orderBy_iff {α ω : Type*} [LinearOrder ω] {g : α → ω} {l : List α} {a : α} {n : ℕ}
    (hinj : ∀ a ∈ l, ∀ b ∈ l, g a = g b → a = b) (ha : a ∈ l) :
    a ∈ (orderBy g l).take n ↔ (l.filter fun b => g b < g a).length < n := by
  obtain ⟨before, after, hsplit, hfirst⟩ :=
    List.eq_append_cons_of_mem (Table.mem_orderBy (g := g).mpr ha)
  have hsorted : (before ++ a :: after).Pairwise fun b c => g b ≤ g c :=
    hsplit ▸ Table.pairwise_orderBy
  obtain ⟨-, hafter, hbefore⟩ := List.pairwise_append.mp hsorted
  have hfilter : (before ++ a :: after).filter (fun b => g b < g a) = before := by
    rw [List.filter_append, List.filter_eq_self.mpr, List.filter_eq_nil_iff.mpr, List.append_nil]
    · intro b hb
      rcases List.mem_cons.mp hb with rfl | hb
      · simp
      · simpa using (List.pairwise_cons.mp hafter).1 b hb
    · intro b hb
      have hmem : b ∈ l := Table.mem_orderBy.mp (hsplit ▸ List.mem_append_left _ hb)
      refine decide_eq_true (lt_of_le_of_ne (hbefore b hb a List.mem_cons_self) fun heq => ?_)
      exact hfirst (hinj b hmem a ha heq ▸ hb)
  have hcount : (l.filter fun b => g b < g a).length = before.length := by
    have hperm : (orderBy g l).Perm l := Table.orderBy_perm
    rw [← (hperm.filter _).length_eq, hsplit, hfilter]
  rw [hcount, hsplit, List.take_append]
  constructor
  · intro hmem
    by_contra hge
    rw [Nat.sub_eq_zero_of_le (by omega), List.take_zero, List.append_nil] at hmem
    exact hfirst (List.mem_of_mem_take hmem)
  · intro hlt
    refine List.mem_append_right _ ?_
    rw [← Nat.succ_pred_eq_of_pos (Nat.sub_pos_of_lt hlt), List.take_succ_cons]
    exact List.mem_cons_self

theorem listingKey_inj {db : Database} {lib : GraphLibrary} {actor : Actor} {query : List Char} :
    ∀ a ∈ db.spelledItems lib actor query, ∀ b ∈ db.spelledItems lib actor query,
      listingKey a = listingKey b → a = b := by
  intro a ha b hb heq
  have hid := congrArg BibliographyItemId.mk (Prod.mk.inj (toLex.injective heq)).2
  exact Table.eq_of_key_eq (Table.mem_select.mp ha).1 (Table.mem_select.mp hb).1 hid

section Items

variable {json : JsonCodec} {items : List (BibliographyItem json)}

theorem searchRefused_iff {q : String} :
    (q ≠ "" ∧ LikeTooComplex (likeContainsPattern lib q.toList) ∧
        ∃ row ∈ db.bibliographyItems.rows, row.owner = actor.principalId ∧
          (db.itemDetails row).isSome) ↔
      db.SearchRefused lib actor q.toList := by
  rw [SearchRefused, and_left_comm, Ne, Ne, String.toList_eq_nil_iff]
  rfl

/-- The first rows that spell the query. -/
def foundItems (db : Database) (lib : GraphLibrary) (actor : Actor) (query : List Char) :
    List BibliographyItemRow :=
  (orderBy listingKey (db.spelledItems lib actor query)).take 200

/-- The items of a search are those of the first rows that spell the query. -/
theorem searchOwnedItems_eq (hlower : lib.LowersCase) {q : String}
    (h : ¬db.SearchRefused lib actor q.toList) :
    db.searchOwnedItems json lib actor q =
      db.decodeItems json (db.foundItems lib actor q.toList) := by
  have hrows : (db.bibliographyItems.select fun row => row.owner = actor.principalId ∧
      (q = "" ∨ sqlLike (sqlLower row.citationKey) (likeContainsPattern lib q.toList) = true ∨
        sqlLike (sqlLower row.cslJson) (likeContainsPattern lib q.toList) = true)) =
      db.spelledItems lib actor q.toList := by
    rw [spelledItems]
    congr 1
    funext row
    simp only [sqlLike_sqlLower]
    by_cases hempty : q = ""
    · subst hempty
      have hspells : Spells lib [] row.citationKey := spells_nil hlower
      simp [hspells]
    · simp [hempty]
  unfold searchOwnedItems
  rw [if_neg (searchRefused_iff.not.mpr h), hrows, foundItems]

theorem not_searchRefused_of_ok {q : String}
    (h : db.searchOwnedItems json lib actor q = .ok items) :
    ¬db.SearchRefused lib actor q.toList := by
  rw [← searchRefused_iff]
  unfold searchOwnedItems at h
  dsimp only at h
  split_ifs at h with hrefused
  exact hrefused

/-- Only a refused pattern, or a corrupt item, keeps a search from being answered. -/
theorem exists_searchOwnedItems_iff (hlower : lib.LowersCase) {q : String}
    (hcorrupt : db.searchOwnedItems json lib actor q ≠ .error .corruptData) :
    (∃ items, db.searchOwnedItems json lib actor q = .ok items) ↔
      ¬db.SearchRefused lib actor q.toList := by
  refine ⟨fun ⟨_, h⟩ => not_searchRefused_of_ok h, fun h => ?_⟩
  rw [searchOwnedItems_eq hlower h] at hcorrupt ⊢
  cases hdecoded : db.decodeItems json (db.foundItems lib actor q.toList) with
  | ok items => exact ⟨items, rfl⟩
  | error e =>
    obtain ⟨details, -, herror⟩ := Except.exists_of_mapM_error hdecoded
    refine absurd ?_ hcorrupt
    rw [hdecoded]
    unfold decodeItem at herror
    split_ifs at herror
    · rcases hrestore : BibliographyItem.restore json _ _ _ _ _ _ _ _ with e' | item
      · rw [hrestore] at herror
        exact congrArg Except.error (Except.error.inj herror).symm
      · rw [hrestore] at herror
        cases herror
    · exact congrArg Except.error (Except.error.inj herror).symm

theorem itemId_of_decodeItem {row : BibliographyItemRow} {identity : Identity}
    {item : BibliographyItem json} (h : decodeItem json row identity = .ok item) :
    item.itemId = row.itemId := by
  obtain ⟨-, -, -, csl, -, hrow⟩ := decodeItem_eq_ok.mp h
  exact congrArg BibliographyItemRow.itemId hrow

theorem mem_spelledItems {query : List Char} {row : BibliographyItemRow} :
    row ∈ db.spelledItems lib actor query ↔ row ∈ db.bibliographyItems ∧
      row.owner = actor.principalId ∧
        (Spells lib query row.citationKey ∨ Spells lib query row.cslJson) := by
  rw [spelledItems, Table.mem_select, decide_eq_true_eq]

theorem mem_foundItems {query : List Char} {row : BibliographyItemRow} :
    row ∈ db.foundItems lib actor query ↔ row ∈ db.spelledItems lib actor query ∧
      ((db.spelledItems lib actor query).filter fun other =>
        listingKey other < listingKey row).length < 200 := by
  refine ⟨fun h => ?_, fun ⟨hmem, hlimit⟩ => ?_⟩
  · have hmem := Table.mem_orderBy.mp (List.mem_of_mem_take h)
    exact ⟨hmem, (mem_take_orderBy_iff listingKey_inj hmem).mp h⟩
  · exact (mem_take_orderBy_iff listingKey_inj hmem).mpr hlimit

/-- Every item of the result is that of a row that was found. -/
theorem exists_row_of_mem_items (hlower : lib.LowersCase) {q : String}
    (h : db.searchOwnedItems json lib actor q = .ok items) {item : BibliographyItem json}
    (hitem : item ∈ items) :
    ∃ row ∈ db.foundItems lib actor q.toList, (db.itemDetails row).isSome ∧
      row.itemId = item.itemId := by
  rw [searchOwnedItems_eq hlower (not_searchRefused_of_ok h)] at h
  obtain ⟨details, hdetails, hdecode⟩ := Except.exists_of_mem_mapM h hitem
  obtain ⟨row, hrow, hview⟩ := List.mem_filterMap.mp hdetails
  refine ⟨row, hrow, Option.isSome_iff_exists.mpr ⟨details, hview⟩, ?_⟩
  obtain ⟨identity, -, rfl⟩ := Option.map_eq_some_iff.mp hview
  exact (itemId_of_decodeItem hdecode).symm

/-- The result has as many items as there are rows, up to the limit. -/
theorem length_items (hlower : lib.LowersCase) {q : String}
    (h : db.searchOwnedItems json lib actor q = .ok items)
    (hidentity : (db.primaryIdentity actor.principalId).isSome) :
    items.length = min 200 (db.spelledItems lib actor q.toList).length := by
  obtain ⟨identity, hidentity⟩ := Option.isSome_iff_exists.mp hidentity
  have hview : ∀ rows : List BibliographyItemRow, (∀ row ∈ rows, row.owner = actor.principalId) →
      (rows.filterMap db.itemDetails) = rows.map fun row => (row, identity) := by
    intro rows howner
    rw [← List.filterMap_eq_map]
    refine List.filterMap_congr fun row hrow => ?_
    rw [itemDetails, howner row hrow, hidentity]
    rfl
  rw [searchOwnedItems_eq hlower (not_searchRefused_of_ok h)] at h
  rw [Except.length_mapM h, hview, List.length_map, foundItems, List.length_take,
    Table.orderBy_perm.length_eq]
  exact fun row hrow => (mem_spelledItems.mp (mem_foundItems.mp hrow).1).2.1

/-- A row that was found has its item in the result. -/
theorem exists_item_of_found (hlower : lib.LowersCase) {q : String}
    (h : db.searchOwnedItems json lib actor q = .ok items) {row : BibliographyItemRow}
    (hrow : row ∈ db.foundItems lib actor q.toList) (hview : (db.itemDetails row).isSome) :
    ∃ item ∈ items, item.itemId = row.itemId := by
  rw [searchOwnedItems_eq hlower (not_searchRefused_of_ok h)] at h
  obtain ⟨details, hdetails⟩ := Option.isSome_iff_exists.mp hview
  obtain ⟨identity, -, rfl⟩ := Option.map_eq_some_iff.mp hdetails
  obtain ⟨item, hitem, hdecode⟩ :=
    Except.exists_mem_of_mapM h (List.mem_filterMap.mpr ⟨row, hrow, hdetails⟩)
  exact ⟨item, hitem, itemId_of_decodeItem hdecode⟩

theorem itemsFound_iff (hlower : lib.LowersCase) {q : String}
    (h : db.searchOwnedItems json lib actor q = .ok items) :
    db.ItemsFound lib actor q.toList items ↔
      ∀ row ∈ db.bibliographyItems, row.owner = actor.principalId → (db.itemDetails row).isSome →
        ¬db.MissedItem lib actor q.toList row ∧ ¬db.StrayItem lib actor q.toList row := by
  have hidentity : ∀ {row : BibliographyItemRow}, row.owner = actor.principalId →
      (db.itemDetails row).isSome → (db.primaryIdentity actor.principalId).isSome := by
    intro row howner hview
    rwa [itemDetails, Option.isSome_map, howner] at hview
  constructor
  · rintro ⟨hcomplete, hsound⟩ row hrow howner hview
    constructor
    · rintro ⟨_, hcontains, hkey, hcsl, hlimit⟩
      rcases hcomplete row hrow howner hview hcontains with ⟨item, hitem, hid⟩ | hfull
      · obtain ⟨row', hrow', -, hid'⟩ := exists_row_of_mem_items hlower h hitem
        obtain ⟨hmem, -, hspells⟩ := mem_spelledItems.mp (mem_foundItems.mp hrow').1
        obtain rfl := Table.eq_of_key_eq hmem hrow (hid'.trans hid)
        exact hspells.elim hkey hcsl
      · rw [length_items hlower h (hidentity howner hview)] at hfull
        omega
    · rintro ⟨_, hspells, hkey, hcsl, hlimit⟩
      have hfound : row ∈ db.foundItems lib actor q.toList :=
        mem_foundItems.mpr ⟨mem_spelledItems.mpr ⟨hrow, howner, hspells⟩, hlimit⟩
      obtain ⟨item, hitem, hid⟩ := exists_item_of_found hlower h hfound hview
      obtain ⟨row', hrow', -, hid', hcontains⟩ := hsound item hitem
      obtain rfl := Table.eq_of_key_eq hrow' hrow (hid'.trans hid)
      exact hcontains.elim hkey hcsl
  · intro hplain
    refine ⟨fun row hrow howner hview hcontains => ?_, fun item hitem => ?_⟩
    · by_cases hlimit : (db.spelledItems lib actor q.toList).length < 200
      · refine Or.inl (exists_item_of_found hlower h (mem_foundItems.mpr
          ⟨mem_spelledItems.mpr ⟨hrow, howner, ?_⟩, ?_⟩) hview)
        · by_contra hnone
          obtain ⟨hkey, hcsl⟩ := not_or.mp hnone
          have hkind := fun hkind =>
            (hplain row hrow howner hview).1 ⟨hkind, hcontains, hkey, hcsl, hlimit⟩
          obtain ⟨hcapitals, hkind⟩ := not_or.mp hkind
          obtain ⟨hquery, hkind⟩ := not_or.mp hkind
          obtain ⟨hkeyText, hcslText⟩ := not_or.mp hkind
          rcases hcontains with hin | hin
          · exact hkey (spells_of_occurs hcapitals hquery hkeyText hin)
          · exact hcsl (spells_of_occurs hcapitals hquery hcslText hin)
        · exact (List.length_filter_le _ _).trans_lt hlimit
      · refine Or.inr ?_
        rw [length_items hlower h (hidentity howner hview)]
        omega
    · obtain ⟨row, hrow, hview, hid⟩ := exists_row_of_mem_items hlower h hitem
      obtain ⟨hspelled, hlimit⟩ := mem_foundItems.mp hrow
      obtain ⟨hmem, howner, hspells⟩ := mem_spelledItems.mp hspelled
      refine ⟨row, hmem, howner, hid, ?_⟩
      by_cases hnul : '\x00' ∈ lib.toLowercase q.toList
      · by_contra hnone
        obtain ⟨hkey, hcsl⟩ := not_or.mp hnone
        exact (hplain row hmem howner hview).2 ⟨hnul, hspells, hkey, hcsl, hlimit⟩
      · exact hspells.imp (Spells.containsUpToCase hlower hnul)
          (Spells.containsUpToCase hlower hnul)

end Items

/-! ## A capital that is not ASCII -/

/-- Lower case of ASCII letters and of É. -/
def accentLibrary : GraphLibrary where
  toLowercase text := text.map fun c => if c.toLower = 'É' then 'é' else c.toLower
  tagsJson tags := Json.render (.array (tags.map Json.string))
  cslTitle _ _ := none

theorem lowersCase_accentLibrary : accentLibrary.LowersCase := by
  refine ⟨rfl, fun text => ?_, fun text => ?_⟩
  · simp only [accentLibrary, List.map_map]
    refine List.map_congr_left fun c _ => ?_
    simp only [Function.comp_apply, toLower_toLower]
  · simp only [accentLibrary, List.map_map]
    refine List.map_congr_left fun c _ => ?_
    by_cases hc : c.toLower = 'É'
    · simp only [Function.comp_apply, if_pos hc]
      rfl
    · simp only [Function.comp_apply, if_neg hc, toLower_toLower]

theorem writesTags_accentLibrary : accentLibrary.WritesTags := fun _ => rfl

/-- Alice has a note with the title É. -/
def accented : Database :=
  twoPrincipals.commit <| NoteCommand.exec twoPrincipals <|
    .create alice ⟨7⟩ ⟨"É", "= É", []⟩ ⟨[], [], []⟩ 100 .web

theorem exists_noteGraph_accented (text : String) (htext : text ∈ [" = ", "É", "["]) :
    ∃ graph, accented.noteGraph accentLibrary alice ⟨some text, none, none⟩ = .ok graph := by
  have hall : ∀ text ∈ [" = ", "É", "["], (accented.noteGraph accentLibrary alice
      ⟨some text, none, none⟩).toOption.isSome = true := by
    decide +kernel
  exact Except.exists_eq_ok (hall text htext)

end Database

end Marginalis
