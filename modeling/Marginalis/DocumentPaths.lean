import Marginalis.Attachments
import Marginalis.Uuid

/-!
# Names of exported files

An export writes files below a directory for each owner. Their names come from titles, names of
images, and the issuer and the subject of an identity, which can be any text. A name keeps the
characters of its text that every file system takes (`safePathComponent`), and never is one of
the names of a directory itself.

All that can be wrong with a name is its length. Titles are cut to a number of characters, and
what else a name is made of is as long as its text.
-/

namespace Marginalis

/-! ## Trimming -/

/-- `str::trim_matches`. -/
def trimMatches (p : Char → Bool) (text : List Char) : List Char :=
  ((text.dropWhile p).reverse.dropWhile p).reverse

/-- `str::trim_start_matches`, of a text : the pattern is taken away as often as it is there. -/
def trimStartMatches (pattern text : List Char) : List Char :=
  (fun text => if pattern <+: text then text.drop pattern.length else text)^[text.length] text

section Trim

variable {p : Char → Bool} {text : List Char} {c : Char}

theorem trimMatches_sublist : (trimMatches p text).Sublist text := by
  have h := (List.dropWhile_sublist (l := (text.dropWhile p).reverse) p).reverse
  rw [List.reverse_reverse] at h
  exact h.trans (List.dropWhile_sublist p)

theorem mem_of_mem_trimMatches (h : c ∈ trimMatches p text) : c ∈ text :=
  trimMatches_sublist.subset h

/-- A trimmed text begins with a character that is not trimmed. -/
theorem head?_trimMatches (h : (trimMatches p text).head? = some c) : p c = false := by
  have hprefix : trimMatches p text <+: text.dropWhile p := by
    rw [trimMatches, ← List.reverse_suffix, List.reverse_reverse]
    exact List.dropWhile_suffix p
  obtain ⟨rest, hrest⟩ := hprefix
  have hhead : (text.dropWhile p).head? = some c := by
    rw [← hrest, List.head?_append, h]
    rfl
  have hnot := List.head?_dropWhile_not p text
  rw [hhead] at hnot
  simpa using hnot

end Trim

/-! ## Names -/

/-- The characters that a name does not keep. -/
def isUnsafe (c : Char) : Bool :=
  isControl c || c ∈ ['/', '\\', ':', '*', '?', '"', '<', '>', '|', '\x00'] || isWhitespace c

/-- A hyphen after a hyphen is left out. -/
def collapseHyphens (text : List Char) : List Char :=
  text.foldl (fun collapsed c =>
    if c = '-' ∧ collapsed.getLast? = some '-' then collapsed else collapsed ++ [c]) []

def safePathComponent (value : List Char) : List Char :=
  trimMatches (fun c => c ∈ ['-', '.'])
    (collapseHyphens (value.map fun c => if isUnsafe c then '-' else c))

/-- A directory or a file has a name in any case. -/
def namedOrUnnamed (value : List Char) : List Char :=
  if safePathComponent value = [] then "unnamed".toList else safePathComponent value

/-- `MAX_TITLE_CHARACTERS_IN_FILE_NAME`. -/
def maxTitleCharactersInFileName : ℕ := 40

/-- The part of a title in a file name. -/
def titleInFileName (title : List Char) : List Char :=
  trimMatches (fun c => c ∈ ['-', '.', ' '])
    ((safePathComponent title).take maxTitleCharactersInFileName)

/-- `note_file_name`, of the title and the id of a note. -/
def noteFileName (title : List Char) (noteId : NoteId) : List Char :=
  if titleInFileName title = [] then Uuid.text noteId.entityId ++ ".adoc".toList
  else titleInFileName title ++ '-' :: Uuid.text noteId.entityId ++ ".adoc".toList

/-- The name of an image : its id and its file name. -/
def attachmentFileName (fileName : List Char) (attachmentId : AttachmentId) : List Char :=
  Uuid.text attachmentId.entityId ++ '-' :: namedOrUnnamed fileName

/-- The issuer without its scheme. -/
def issuerName (issuer : List Char) : List Char :=
  trimStartMatches "http://".toList (trimStartMatches "https://".toList issuer)

/-- `owner_directory` : a directory for the issuer, with one for the subject. -/
def ownerDirectory (identity : Identity) : List Char :=
  namedOrUnnamed (issuerName identity.issuer.toList) ++ '/' ::
    namedOrUnnamed identity.subject.toList

/-! ## Safety -/

/-- The bytes of a text in UTF-8. -/
def utf8Length (text : List Char) : ℕ := (String.ofList text).utf8ByteSize

/-- A name that is neither empty nor a directory itself, without separators and control
characters. -/
structure IsFileName (name : List Char) : Prop where
  nonempty : name ≠ []
  notSelf : name ≠ ['.']
  notParent : name ≠ ['.', '.']
  characters : ∀ c ∈ name, c ≠ '/' ∧ c ≠ '\\' ∧ isControl c = false

/-- A name that every file system takes. -/
structure IsSafeComponent (name : List Char) : Prop extends IsFileName name where
  short : utf8Length name ≤ 255

section Safety

variable {value title name rest : List Char} {noteId : NoteId} {attachmentId : AttachmentId}
  {n : ℕ} {c : Char}

theorem mem_collapseHyphens {text : List Char} (h : c ∈ collapseHyphens text) : c ∈ text := by
  have hloop : ∀ (text collapsed : List Char), c ∈ text.foldl (fun collapsed c =>
      if c = '-' ∧ collapsed.getLast? = some '-' then collapsed else collapsed ++ [c])
        collapsed → c ∈ collapsed ∨ c ∈ text := by
    intro text
    induction text with
    | nil => exact fun collapsed h => Or.inl h
    | cons d text ih =>
      intro collapsed h
      rcases ih _ h with h | h
      · dsimp only at h
        split_ifs at h
        · exact Or.inl h
        · rcases List.mem_append.mp h with h | h
          · exact Or.inl h
          · exact Or.inr (List.mem_singleton.mp h ▸ List.mem_cons_self)
      · exact Or.inr (List.mem_cons_of_mem d h)
  exact (hloop text [] h).resolve_left List.not_mem_nil

/-- The characters of a name are safe. -/
theorem isUnsafe_of_mem_safePathComponent (h : c ∈ safePathComponent value) :
    isUnsafe c = false := by
  obtain ⟨d, -, rfl⟩ := List.mem_map.mp (mem_collapseHyphens (mem_of_mem_trimMatches h))
  by_cases hd : isUnsafe d
  · rw [if_pos hd]
    decide
  · rw [if_neg hd]
    simpa using hd

theorem characters_of_isUnsafe (h : isUnsafe c = false) :
    c ≠ '/' ∧ c ≠ '\\' ∧ isControl c = false := by
  simp only [isUnsafe, Bool.or_eq_false_iff, decide_eq_false_iff_not] at h
  obtain ⟨⟨hcontrol, hmem⟩, -⟩ := h
  refine ⟨fun heq => hmem (heq ▸ by simp), fun heq => hmem (heq ▸ by simp), hcontrol⟩

theorem head?_safePathComponent (h : (safePathComponent value).head? = some c) : c ≠ '.' := by
  intro hc
  have hhead := head?_trimMatches h
  rw [hc] at hhead
  simp at hhead

/-- Without hyphens nothing is collapsed. -/
theorem collapseHyphens_eq_self {text : List Char} (h : '-' ∉ text) :
    collapseHyphens text = text := by
  have hloop : ∀ (text collapsed : List Char), '-' ∉ text → text.foldl (fun collapsed c =>
      if c = '-' ∧ collapsed.getLast? = some '-' then collapsed else collapsed ++ [c])
        collapsed = collapsed ++ text := by
    intro text
    induction text with
    | nil => exact fun collapsed _ => (List.append_nil collapsed).symm
    | cons c text ih =>
      intro collapsed hmem
      obtain ⟨hc, hrest⟩ := not_or.mp (List.mem_cons.not.mp hmem)
      rw [List.foldl_cons, if_neg (fun h => hc h.1.symm), ih _ hrest, List.append_assoc]
      rfl
  exact hloop text [] h

theorem trimMatches_eq_self {p : Char → Bool} {text : List Char} (h : ∀ c ∈ text, p c = false) :
    trimMatches p text = text := by
  have hdrop : ∀ text : List Char, (∀ c ∈ text, p c = false) → text.dropWhile p = text := by
    intro text h
    cases text with
    | nil => rfl
    | cons c text =>
      exact List.dropWhile_cons_of_neg (by simp [h c List.mem_cons_self])
  unfold trimMatches
  rw [hdrop text h, hdrop text.reverse fun c hc => h c (List.mem_reverse.mp hc),
    List.reverse_reverse]

/-- A name of safe characters, without hyphens and dots, stays as it is. -/
theorem safePathComponent_eq_self
    (h : ∀ c ∈ value, isUnsafe c = false ∧ c ≠ '-' ∧ c ≠ '.') :
    safePathComponent value = value := by
  have hmap : (value.map fun c => if isUnsafe c then '-' else c) = value := by
    refine (List.map_congr_left fun c hc => ?_).trans (List.map_id _)
    rw [(h c hc).1]
    rfl
  unfold safePathComponent
  rw [hmap, collapseHyphens_eq_self fun hmem => (h _ hmem).2.1 rfl]
  refine trimMatches_eq_self fun c hc => ?_
  simp [(h c hc).2.1, (h c hc).2.2]

/-- The characters of a fixed name are checked one by one. -/
theorem characters_of_all
    (h : (name.all fun c => decide (c ≠ '/' ∧ c ≠ '\\' ∧ isControl c = false)) = true) :
    ∀ c ∈ name, c ≠ '/' ∧ c ≠ '\\' ∧ isControl c = false :=
  fun c hc => of_decide_eq_true (List.all_eq_true.mp h c hc)

theorem isFileName_namedOrUnnamed (value : List Char) : IsFileName (namedOrUnnamed value) := by
  rw [namedOrUnnamed]
  by_cases hempty : safePathComponent value = []
  · rw [if_pos hempty]
    exact ⟨by decide, by decide, by decide, characters_of_all (by decide)⟩
  · rw [if_neg hempty]
    have hdot : ∀ rest, safePathComponent value ≠ '.' :: rest := fun rest heq =>
      head?_safePathComponent (by rw [heq, List.head?_cons]) rfl
    exact ⟨hempty, hdot [], hdot ['.'], fun c hc =>
      characters_of_isUnsafe (isUnsafe_of_mem_safePathComponent hc)⟩

theorem characters_of_mem_uuid (h : c ∈ Uuid.text n) :
    c ≠ '/' ∧ c ≠ '\\' ∧ isControl c = false := by
  have hdigits : ∀ d < 16, Nat.digitChar d ≠ '/' ∧ Nat.digitChar d ≠ '\\' ∧
      isControl (Nat.digitChar d) = false := by
    decide
  rcases Uuid.mem_text h with rfl | ⟨d, hd, rfl⟩
  · decide
  · exact hdigits d hd

/-- A long name is none of a directory itself. -/
theorem isFileName_of_length (hlength : 2 < name.length)
    (hcharacters : ∀ c ∈ name, c ≠ '/' ∧ c ≠ '\\' ∧ isControl c = false) : IsFileName name := by
  refine ⟨?_, ?_, ?_, hcharacters⟩
  all_goals
    rintro rfl
    simp at hlength

theorem isFileName_noteFileName (title : List Char) (noteId : NoteId) :
    IsFileName (noteFileName title noteId) := by
  have hextension : ∀ c ∈ ".adoc".toList, c ≠ '/' ∧ c ≠ '\\' ∧ isControl c = false :=
    characters_of_all (by decide)
  have htitle : ∀ c ∈ titleInFileName title, c ≠ '/' ∧ c ≠ '\\' ∧ isControl c = false :=
    fun c hc => characters_of_isUnsafe (isUnsafe_of_mem_safePathComponent
      (List.mem_of_mem_take (mem_of_mem_trimMatches hc)))
  rw [noteFileName]
  split_ifs
  · refine isFileName_of_length (by simp) fun c hc => ?_
    rcases List.mem_append.mp hc with hc | hc
    · exact characters_of_mem_uuid hc
    · exact hextension c hc
  · refine isFileName_of_length (by simp) fun c hc => ?_
    rcases List.mem_append.mp hc with hc | hc
    · rcases List.mem_append.mp hc with hc | hc
      · exact htitle c hc
      · rcases List.mem_cons.mp hc with rfl | hc
        · decide
        · exact characters_of_mem_uuid hc
    · exact hextension c hc

theorem isFileName_attachmentFileName (value : List Char) (attachmentId : AttachmentId) :
    IsFileName (attachmentFileName value attachmentId) := by
  rw [attachmentFileName]
  refine isFileName_of_length (by simp; omega) fun c hc => ?_
  rcases List.mem_append.mp hc with hc | hc
  · exact characters_of_mem_uuid hc
  · rcases List.mem_cons.mp hc with rfl | hc
    · decide
    · exact (isFileName_namedOrUnnamed value).characters c hc

/-! ## Lengths -/

theorem utf8Length_append (text rest : List Char) :
    utf8Length (text ++ rest) = utf8Length text + utf8Length rest := by
  rw [utf8Length, utf8Length, utf8Length, String.ofList_append, String.utf8ByteSize_append]

theorem utf8Length_singleton (c : Char) : utf8Length [c] = c.utf8Size := by
  rw [utf8Length, ← String.singleton_eq_ofList, String.utf8ByteSize_singleton]

theorem utf8Length_le (text : List Char) : utf8Length text ≤ 4 * text.length := by
  induction text with
  | nil => simp [utf8Length]
  | cons c text ih =>
    have hc : utf8Length [c] ≤ 4 := utf8Length_singleton c ▸ c.utf8Size_le_four
    have happend := utf8Length_append [c] text
    rw [List.singleton_append] at happend
    rw [List.length_cons, happend]
    omega

theorem utf8Length_of_ascii {text : List Char} (h : ∀ c ∈ text, c.utf8Size = 1) :
    utf8Length text = text.length := by
  induction text with
  | nil => rfl
  | cons c text ih =>
    have hc : utf8Length [c] = 1 := (utf8Length_singleton c).trans (h c List.mem_cons_self)
    have happend := utf8Length_append [c] text
    rw [List.singleton_append] at happend
    rw [List.length_cons, happend, hc, ih fun d hd => h d (List.mem_cons_of_mem _ hd)]
    omega

@[simp] theorem utf8Length_uuid : utf8Length (Uuid.text n) = 36 := by
  have hdigits : ∀ d < 16, (Nat.digitChar d).utf8Size = 1 := by decide
  rw [utf8Length_of_ascii, Uuid.length_text]
  intro c hc
  rcases Uuid.mem_text hc with rfl | ⟨d, hd, rfl⟩
  · decide
  · exact hdigits d hd

/-- The name of a note is short, whatever its title is. -/
theorem utf8Length_noteFileName (title : List Char) (noteId : NoteId) :
    utf8Length (noteFileName title noteId) ≤ 202 := by
  have hextension : utf8Length ".adoc".toList = 5 := by decide
  have hhyphen : utf8Length ['-'] = 1 := by decide
  have htitle : (titleInFileName title).length ≤ 40 :=
    (trimMatches_sublist.length_le).trans (List.length_take_le _ _)
  have hbytes := utf8Length_le (titleInFileName title)
  rw [noteFileName]
  split_ifs
  · rw [utf8Length_append, utf8Length_uuid, hextension]
    omega
  · have hcons := utf8Length_append ['-'] (Uuid.text noteId.entityId)
    rw [List.singleton_append, hhyphen, utf8Length_uuid] at hcons
    rw [utf8Length_append, utf8Length_append, hcons, hextension]
    omega

theorem utf8Length_attachmentFileName (value : List Char) (attachmentId : AttachmentId) :
    utf8Length (attachmentFileName value attachmentId) =
      37 + utf8Length (namedOrUnnamed value) := by
  have hhyphen : utf8Length ['-'] = 1 := by decide
  have hcons := utf8Length_append ['-'] (namedOrUnnamed value)
  rw [List.singleton_append, hhyphen] at hcons
  rw [attachmentFileName, utf8Length_append, utf8Length_uuid, hcons]
  omega

theorem isSafeComponent_noteFileName (title : List Char) (noteId : NoteId) :
    IsSafeComponent (noteFileName title noteId) :=
  ⟨isFileName_noteFileName title noteId, (utf8Length_noteFileName title noteId).trans (by omega)⟩

theorem isSafeComponent_namedOrUnnamed :
    IsSafeComponent (namedOrUnnamed value) ↔ utf8Length (namedOrUnnamed value) ≤ 255 :=
  ⟨fun h => h.short, fun h => ⟨isFileName_namedOrUnnamed value, h⟩⟩

theorem isSafeComponent_attachmentFileName :
    IsSafeComponent (attachmentFileName value attachmentId) ↔
      37 + utf8Length (namedOrUnnamed value) ≤ 255 := by
  rw [← utf8Length_attachmentFileName value attachmentId]
  exact ⟨fun h => h.short, fun h => ⟨isFileName_attachmentFileName value attachmentId, h⟩⟩

end Safety

end Marginalis
