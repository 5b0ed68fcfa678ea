import Marginalis.PatchFrame

/-!
# Every diff applies

A unified diff between two texts is an edit script over their lines, cut into hunks in any way
and written out with the numbers of the lines (`UnifiedDiff.render`). It is read back as the
hunks it was written for (`parsePatch_render`), and these fit its old text (`fits_hunks`), so it
always applies. The lines that are written are those of the new text, and the text is the new one
except where the join loses a line or an end (`patch_complete_iff`) : when the new text is one
empty line, and when the last hunks only remove the end of the old text while the new text is
unterminated.
-/

namespace Marginalis

open Splice TextLines

/-! ## Headers -/

theorem stripPrefix_append (start s : List Char) : stripPrefix start (start ++ s) = some s := by
  unfold stripPrefix
  rw [if_pos (List.isPrefixOf_iff_prefix.mpr (List.prefix_append ..)), List.drop_left]

/-- A separator is found behind a text without its first character. -/
theorem splitOnce_append {c : Char} {before : List Char} (separator after : List Char)
    (h : c ∉ before) :
    splitOnce (c :: separator) (before ++ c :: separator ++ after) = some (before, after) := by
  induction before with
  | nil =>
    rw [List.nil_append, List.cons_append, splitOnce, ← List.cons_append,
      if_pos (List.isPrefixOf_iff_prefix.mpr (List.prefix_append ..)), List.drop_left]
  | cons b before ih =>
    rw [List.mem_cons, not_or] at h
    have hne : ¬(c :: separator).isPrefixOf (b :: (before ++ c :: separator ++ after)) := by
      rw [List.isPrefixOf_iff_prefix, List.cons_prefix_cons]
      exact fun hprefix => h.1 hprefix.1
    rw [List.cons_append, List.cons_append, splitOnce, if_neg hne, ih h.2]
    rfl

theorem splitOnce_eq_none {c : Char} {separator s : List Char} (h : c ∉ s) :
    splitOnce (c :: separator) s = none := by
  induction s with
  | nil => simp [splitOnce]
  | cons b s ih =>
    rw [List.mem_cons, not_or] at h
    have hne : ¬(c :: separator).isPrefixOf (b :: s) := by
      rw [List.isPrefixOf_iff_prefix, List.cons_prefix_cons]
      exact fun hprefix => h.1 hprefix.1
    rw [splitOnce, if_neg hne, ih h.2]
    rfl

/-- A number in decimal digits. -/
def spellNat (n : ℕ) : List Char := Nat.toDigits 10 n

theorem isDigit_of_mem_spellNat {n : ℕ} {c : Char} (h : c ∈ spellNat n) : c.isDigit = true :=
  Nat.isDigit_of_mem_toDigits (by omega) (by omega) h

theorem not_mem_spellNat {n : ℕ} {c : Char} (hc : c.isDigit = false) : c ∉ spellNat n := by
  intro h
  rw [isDigit_of_mem_spellNat h] at hc
  cases hc

theorem parseUsize_spellNat {n : ℕ} (h : n < usizeBound) : parseUsize (spellNat n) = some n := by
  have hplus : (spellNat n).head? ≠ some '+' := fun hhead =>
    not_mem_spellNat (by decide) (List.mem_of_head? hhead)
  have hdigits : (spellNat n).all Char.isDigit = true :=
    List.all_eq_true.mpr fun c hc => isDigit_of_mem_spellNat hc
  have hvalue : Nat.ofDigitChars 10 (spellNat n) 0 = n := Nat.ofDigitChars_ten_toDigits
  unfold parseUsize
  simp only [if_neg hplus, hdigits, hvalue]
  rw [if_pos ⟨Nat.toDigits_ne_nil, trivial, h⟩]

/-- The range of `len` lines from the line `start` on. A length of one can be left out. -/
def spellRange (omitLen : Bool) (start len : ℕ) : List Char :=
  if omitLen ∧ len = 1 then spellNat start else spellNat start ++ ',' :: spellNat len

theorem parseRange_spellRange {omitLen : Bool} {start len : ℕ} (hstart : start < usizeBound)
    (hlen : len < usizeBound) : parseRange (spellRange omitLen start len) = some (start, len) := by
  unfold parseRange spellRange
  split_ifs with homit
  · rw [splitOnce_eq_none (not_mem_spellNat (by decide))]
    simp only [parseUsize_spellNat hstart, homit.2]
    rfl
  · have hsplit := splitOnce_append [] (spellNat len)
      (@not_mem_spellNat start ',' (by decide))
    rw [List.append_assoc, List.cons_append, List.nil_append] at hsplit
    rw [hsplit]
    simp only [parseUsize_spellNat hstart, parseUsize_spellNat hlen]
    rfl

theorem not_mem_spellRange {omitLen : Bool} {start len : ℕ} {c : Char}
    (hc : c.isDigit = false) (hcomma : c ≠ ',') : c ∉ spellRange omitLen start len := by
  unfold spellRange
  split_ifs
  · exact not_mem_spellNat hc
  · simp only [List.mem_append, List.mem_cons, not_or]
    exact ⟨not_mem_spellNat hc, hcomma, not_mem_spellNat hc⟩

/-- How a hunk header is written. -/
structure HeaderStyle where
  omitOldLen : Bool
  omitNewLen : Bool
  heading : List Char

/-- A hunk header. -/
def spellHeader (style : HeaderStyle) (oldStart oldLen newStart newLen : ℕ) : List Char :=
  "@@ -".toList ++ (spellRange style.omitOldLen oldStart oldLen ++ " +".toList ++
    (spellRange style.omitNewLen newStart newLen ++ " @@".toList ++ style.heading))

theorem parseHunkHeader_spellHeader {style : HeaderStyle} {oldStart oldLen newStart newLen : ℕ}
    (hold : oldStart < usizeBound) (holdLen : oldLen < usizeBound)
    (hnew : newStart < usizeBound) (hnewLen : newLen < usizeBound) :
    parseHunkHeader (spellHeader style oldStart oldLen newStart newLen) =
      some (oldStart, oldLen, newLen) := by
  unfold parseHunkHeader spellHeader
  have hspace : ∀ omitLen start len, ' ' ∉ spellRange omitLen start len := fun _ _ _ =>
    not_mem_spellRange (by decide) (by decide)
  have hplus := splitOnce_append ['+']
    (spellRange style.omitNewLen newStart newLen ++ " @@".toList ++ style.heading)
    (hspace style.omitOldLen oldStart oldLen)
  have hat := splitOnce_append ['@', '@'] style.heading
    (hspace style.omitNewLen newStart newLen)
  have hplus' : " +".toList = [' ', '+'] := by decide
  have hat' : " @@".toList = [' ', '@', '@'] := by decide
  rw [hat'] at hplus
  simp only [stripPrefix_append, hplus', hat', hplus, hat, Option.bind_eq_bind, Option.bind_some,
    parseRange_spellRange hold holdLen, parseRange_spellRange hnew hnewLen]
  rfl

/-! ## Diffs -/

/-- The line after one that is not ended. -/
def noNewlineMarker : List Char := "\\ No newline at end of file".toList

/-- The marker of a line. -/
def markerOf (t : Token Char) : Option (List Char) := if t.ended then none else some noNewlineMarker

theorem markerOf_head (t : Token Char) : ∀ m ∈ markerOf t, m.head? = some '\\' := by
  intro m hm
  unfold markerOf at hm
  split_ifs at hm
  · cases hm
  · cases hm
    decide

/-- An edit as a line of a hunk. -/
def bodyLine : Edit (Token Char) → BodyLine
  | .context t => ⟨' ' :: t.text, .context t.text, rfl, markerOf t, markerOf_head t⟩
  | .remove t => ⟨'-' :: t.text, .remove t.text, rfl, markerOf t, markerOf_head t⟩
  | .add t => ⟨'+' :: t.text, .add t.text, rfl, markerOf t, markerOf_head t⟩

/-- Edits that become one hunk, and how its header is written. -/
structure DiffHunk where
  block : Block (Token Char)
  style : HeaderStyle

/-- The number in a header for a range that starts after `before` lines : an empty range is named
by the line before it. -/
def startNumber (before len : ℕ) : ℕ := if len = 0 then before else before + 1

namespace DiffHunk

variable (d : DiffHunk)

/-- The number of lines on either side. -/
def oldLen : ℕ := (Splice.oldSide d.block.edits).length

def newLen : ℕ := (Splice.newSide d.block.edits).length

/-- The header, where `oldBefore` and `newBefore` lines come before the gap. -/
def header (oldBefore newBefore : ℕ) : List Char :=
  spellHeader d.style (startNumber (oldBefore + d.block.gap.length) d.oldLen) d.oldLen
    (startNumber (newBefore + d.block.gap.length) d.newLen) d.newLen

/-- The hunk it is to be read as. -/
def toHunk (oldBefore : ℕ) : Hunk :=
  (⟨startNumber (oldBefore + d.block.gap.length) d.oldLen, d.oldLen, d.newLen, [], false,
    false⟩ : Hunk).extend (d.block.edits.map bodyLine)

end DiffHunk

/-- The lines of hunks after `oldBefore` and `newBefore` lines. -/
def renderHunks (oldBefore newBefore : ℕ) : List DiffHunk → List (List Char)
  | [] => []
  | d :: ds => d.header oldBefore newBefore :: (spellBody (d.block.edits.map bodyLine) ++
      renderHunks (oldBefore + d.block.old.length) (newBefore + d.block.new.length) ds)

/-- The hunks they are to be read as. -/
def toHunks (oldBefore : ℕ) : List DiffHunk → List Hunk
  | [] => []
  | d :: ds => d.toHunk oldBefore :: toHunks (oldBefore + d.block.old.length) ds

/-- An edit script over lines, cut into hunks. -/
structure UnifiedDiff where
  hunks : List DiffHunk
  tail : List (Token Char)

namespace UnifiedDiff

variable (d : UnifiedDiff)

/-- The script, with the edits of each hunk in a block. -/
def script : Script (Token Char) := ⟨d.hunks.map DiffHunk.block, d.tail⟩

/-- The text of the diff. -/
def render : List Char :=
  unlines '\n' ("--- a/note.adoc".toList :: "+++ b/note.adoc".toList :: renderHunks 0 0 d.hunks)
    false

/-- The diff leads from `s` to `t` : its sides are their lines, every hunk says something, and
headers are lines. -/
structure Between (s t : List Char) : Prop where
  oldLines : AreLines '\n' d.script.old
  newLines : AreLines '\n' d.script.new
  old : spell '\n' d.script.old = s
  new : spell '\n' d.script.new = t
  edits : ∀ hunk ∈ d.hunks, hunk.block.edits ≠ []
  headings : ∀ hunk ∈ d.hunks, '\n' ∉ hunk.style.heading

end UnifiedDiff

/-! ## Reading a diff -/

theorem oldCount_bodyLines (es : List (Edit (Token Char))) :
    oldCount (es.map bodyLine) = (oldSide es).length := by
  induction es with
  | nil => rfl
  | cons e es ih => cases e <;> simp [bodyLine, HunkLine.oldCount, ih, Nat.add_comm]

theorem newCount_bodyLines (es : List (Edit (Token Char))) :
    newCount (es.map bodyLine) = (newSide es).length := by
  induction es with
  | nil => rfl
  | cons e es ih => cases e <;> simp [bodyLine, HunkLine.newCount, ih, Nat.add_comm]

theorem eq_nil_of_areLines_cons {t : Token Char} {ts : List (Token Char)}
    (h : AreLines '\n' (t :: ts)) (hmarker : (markerOf t).isSome = true) : ts = [] := by
  refine (h.eq_nil ?_).1
  unfold markerOf at hmarker
  cases hended : t.ended with
  | false => rfl
  | true => simp [hended] at hmarker

/-- The markers stand where a side ends. -/
theorem markersLast_bodyLines {es : List (Edit (Token Char))} (hold : AreLines '\n' (oldSide es))
    (hnew : AreLines '\n' (newSide es)) : MarkersLast (es.map bodyLine) := by
  induction es with
  | nil => exact trivial
  | cons e es ih =>
    cases e with
    | context t =>
      refine ⟨fun hmarker => Or.inl ⟨rfl, ?_⟩, ih hold.tail hnew.tail⟩
      have hnil : oldSide es = [] := eq_nil_of_areLines_cons hold hmarker
      rw [oldCount_bodyLines, hnil]
      rfl
    | remove t =>
      refine ⟨fun hmarker => Or.inl ⟨rfl, ?_⟩, ih hold.tail hnew⟩
      have hnil : oldSide es = [] := eq_nil_of_areLines_cons hold hmarker
      rw [oldCount_bodyLines, hnil]
      rfl
    | add t =>
      refine ⟨fun hmarker => Or.inr ⟨rfl, ?_⟩, ih hold hnew.tail⟩
      have hnil : newSide es = [] := eq_nil_of_areLines_cons hnew hmarker
      rw [newCount_bodyLines, hnil]
      rfl

variable {ds : List DiffHunk} {oldBefore newBefore : ℕ} {oldTail newTail : List (Token Char)}

theorem areLines_sides {d : DiffHunk}
    (hold : AreLines '\n' ((d :: ds).flatMap (fun d => d.block.old) ++ oldTail))
    (hnew : AreLines '\n' ((d :: ds).flatMap (fun d => d.block.new) ++ newTail)) :
    (AreLines '\n' (oldSide d.block.edits) ∧ AreLines '\n' (newSide d.block.edits)) ∧
      AreLines '\n' (ds.flatMap (fun d => d.block.old) ++ oldTail) ∧
      AreLines '\n' (ds.flatMap (fun d => d.block.new) ++ newTail) := by
  rw [List.flatMap_cons, Block.old, List.append_assoc, List.append_assoc] at hold
  rw [List.flatMap_cons, Block.new, List.append_assoc, List.append_assoc] at hnew
  have hold' := hold.append.2.1.append
  have hnew' := hnew.append.2.1.append
  exact ⟨⟨hold'.1, hnew'.1⟩, hold'.2.1, hnew'.2.1⟩

/-- The hunks of a diff are hunk texts of the grammar. -/
theorem exists_texts_renderHunks
    (hold : AreLines '\n' (ds.flatMap (fun d => d.block.old) ++ oldTail))
    (hnew : AreLines '\n' (ds.flatMap (fun d => d.block.new) ++ newTail))
    (holdBound : oldBefore + (ds.flatMap fun d => d.block.old).length < usizeBound)
    (hnewBound : newBefore + (ds.flatMap fun d => d.block.new).length < usizeBound) :
    ∃ texts : List HunkText, renderHunks oldBefore newBefore ds = texts.flatMap HunkText.spell ∧
      texts.map HunkText.toHunk = toHunks oldBefore ds ∧ ∀ t ∈ texts, t.Strict := by
  induction ds generalizing oldBefore newBefore with
  | nil => exact ⟨[], rfl, rfl, by simp⟩
  | cons d ds ih =>
    obtain ⟨⟨holdSide, hnewSide⟩, hold, hnew⟩ := areLines_sides hold hnew
    rw [List.flatMap_cons, List.length_append] at holdBound hnewBound
    obtain ⟨texts, hrender, hhunks, hstrict⟩ := ih hold hnew
      (show oldBefore + d.block.old.length + _ < usizeBound by omega)
      (show newBefore + d.block.new.length + _ < usizeBound by omega)
    have holdLen : d.block.old.length = d.block.gap.length + d.oldLen := List.length_append
    have hnewLen : d.block.new.length = d.block.gap.length + d.newLen := List.length_append
    have hstart : ∀ before len, before + len < usizeBound →
        startNumber before len < usizeBound := by
      intro before len hlt
      unfold startNumber
      split_ifs <;> omega
    have hreads := @parseHunkHeader_spellHeader d.style
      (startNumber (oldBefore + d.block.gap.length) d.oldLen) d.oldLen
      (startNumber (newBefore + d.block.gap.length) d.newLen) d.newLen
      (hstart _ _ (by omega)) (by omega) (hstart _ _ (by omega)) (by omega)
    refine ⟨⟨_, _, _, _, hreads, d.block.edits.map bodyLine⟩ :: texts, ?_, ?_, ?_⟩
    · rw [renderHunks, List.flatMap_cons, HunkText.spell, hrender]
      rfl
    · rw [List.map_cons, toHunks, hhunks]
      rfl
    · refine List.forall_mem_cons.mpr ⟨⟨oldCount_bodyLines _, newCount_bodyLines _, ?_⟩, hstrict⟩
      exact markersLast_bodyLines holdSide hnewSide

theorem not_mem_spellHeader {style : HeaderStyle} {oldStart oldLen newStart newLen : ℕ}
    (h : '\n' ∉ style.heading) :
    '\n' ∉ spellHeader style oldStart oldLen newStart newLen := by
  have hrange : ∀ omitLen start len, '\n' ∉ spellRange omitLen start len := fun _ _ _ =>
    not_mem_spellRange (by decide) (by decide)
  unfold spellHeader
  simp only [List.mem_append, not_or]
  exact ⟨by decide, ⟨hrange _ _ _, by decide⟩, ⟨hrange _ _ _, by decide⟩, h⟩

/-- The lines of a body are lines when those of both sides are. -/
theorem not_mem_spellBody {es : List (Edit (Token Char))} (hold : AreLines '\n' (oldSide es))
    (hnew : AreLines '\n' (newSide es)) : ∀ l ∈ spellBody (es.map bodyLine), '\n' ∉ l := by
  have hmarker : ∀ t, ∀ l ∈ (markerOf t).toList, '\n' ∉ l := by
    intro t l hl
    unfold markerOf at hl
    split_ifs at hl
    · cases hl
    · obtain rfl := List.mem_singleton.mp hl
      decide
  have hline : ∀ (c : Char) (t : Token Char), c ≠ '\n' → '\n' ∉ t.text → '\n' ∉ c :: t.text := by
    intro c t hc ht hmem
    exact (List.mem_cons.mp hmem).elim (fun h => hc h.symm) ht
  induction es with
  | nil => simp [spellBody]
  | cons e es ih =>
    rw [List.map_cons, spellBody_cons, List.forall_mem_cons]
    cases e with
    | context t =>
      refine ⟨hline ' ' t (by decide) (hold.not_mem t (List.mem_cons_self ..)), fun l hl => ?_⟩
      exact (List.mem_append.mp hl).elim (hmarker t l) (ih hold.tail hnew.tail l)
    | remove t =>
      refine ⟨hline '-' t (by decide) (hold.not_mem t (List.mem_cons_self ..)), fun l hl => ?_⟩
      exact (List.mem_append.mp hl).elim (hmarker t l) (ih hold.tail hnew l)
    | add t =>
      refine ⟨hline '+' t (by decide) (hnew.not_mem t (List.mem_cons_self ..)), fun l hl => ?_⟩
      exact (List.mem_append.mp hl).elim (hmarker t l) (ih hold hnew.tail l)

theorem not_mem_renderHunks
    (hold : AreLines '\n' (ds.flatMap (fun d => d.block.old) ++ oldTail))
    (hnew : AreLines '\n' (ds.flatMap (fun d => d.block.new) ++ newTail))
    (hheading : ∀ d ∈ ds, '\n' ∉ d.style.heading) :
    ∀ l ∈ renderHunks oldBefore newBefore ds, '\n' ∉ l := by
  induction ds generalizing oldBefore newBefore with
  | nil => simp [renderHunks]
  | cons d ds ih =>
    obtain ⟨⟨holdSide, hnewSide⟩, hold, hnew⟩ := areLines_sides hold hnew
    obtain ⟨hd, hheading⟩ := List.forall_mem_cons.mp hheading
    rw [renderHunks, List.forall_mem_cons]
    refine ⟨not_mem_spellHeader hd, fun l hl => ?_⟩
    exact (List.mem_append.mp hl).elim (not_mem_spellBody holdSide hnewSide l)
      (ih hold hnew hheading l)

namespace UnifiedDiff

variable {d : UnifiedDiff} {s t : List Char}

theorem script_old : d.script.old = d.hunks.flatMap (fun d => d.block.old) ++ d.tail := by
  simp [script, Script.old, List.flatMap_map]

theorem script_new : d.script.new = d.hunks.flatMap (fun d => d.block.new) ++ d.tail := by
  simp [script, Script.new, List.flatMap_map]

/-- A diff without hunks leads from a text to itself. -/
theorem Between.hunks_ne_nil (h : d.Between s t) (hne : s ≠ t) : d.hunks ≠ [] := by
  intro hnil
  apply hne
  rw [← h.old, ← h.new, script_old, script_new, hnil]
  rfl

/-- A diff is read as its hunks. -/
theorem parsePatch_render (h : d.Between s t) (hne : s ≠ t) (hs : s.length < usizeBound)
    (ht : t.length < usizeBound) : parsePatch d.render = .ok (toHunks 0 d.hunks) := by
  have hold := h.oldLines
  have hnew := h.newLines
  have holdLen := hold.length_le
  have hnewLen := hnew.length_le
  rw [h.old] at holdLen
  rw [h.new] at hnewLen
  rw [script_old] at hold holdLen
  rw [script_new] at hnew hnewLen
  rw [List.length_append] at holdLen hnewLen
  obtain ⟨texts, hrender, hhunks, hstrict⟩ :=
    @exists_texts_renderHunks d.hunks 0 0 d.tail d.tail hold
    hnew (by omega) (by omega)
  refine (strictPatch_iff.mp ⟨"--- a/note.adoc".toList, "+++ b/note.adoc".toList, texts, ?_,
    by decide, by decide, ?_, hhunks.symm, hstrict⟩).1
  · have hlines : ∀ l ∈ "--- a/note.adoc".toList :: "+++ b/note.adoc".toList ::
        renderHunks 0 0 d.hunks, '\n' ∉ l := by
      rw [List.forall_mem_cons, List.forall_mem_cons]
      exact ⟨by decide, by decide, not_mem_renderHunks hold hnew h.headings⟩
    have hstrip : stripFinalNewline d.render = ['\n'].intercalate ("--- a/note.adoc".toList ::
        "+++ b/note.adoc".toList :: renderHunks 0 0 d.hunks) := by
      unfold stripFinalNewline render unlines
      rw [if_neg (List.cons_ne_nil _ _), if_neg Bool.false_ne_true, if_pos List.getLast?_concat,
        List.dropLast_concat]
    rw [patchLines, hstrip, List.splitOn_intercalate _ hlines (List.cons_ne_nil _ _), hrender]
  · rintro rfl
    cases hds : d.hunks with
    | nil => exact h.hunks_ne_nil hne hds
    | cons hunk hunks =>
      rw [hds, toHunks] at hhunks
      cases hhunks

end UnifiedDiff

/-! ## Applying a diff -/

namespace DiffHunk

variable {d : DiffHunk} {p : ℕ}

theorem edit_bodyLine (e : Edit (Token Char)) : (bodyLine e).line.edit = e.map Token.text := by
  cases e <;> rfl

theorem toHunk_edits : (d.toHunk p).lines.map HunkLine.edit =
    d.block.edits.map (Edit.map Token.text) := by
  simp [toHunk, Hunk.extend, Function.comp_def, edit_bodyLine]

@[simp] theorem toHunk_oldSide :
    (d.toHunk p).oldSide = (Splice.oldSide d.block.edits).map Token.text := by
  rw [Hunk.oldSide, toHunk_edits, oldSide_map]

@[simp] theorem toHunk_newSide :
    (d.toHunk p).newSide = (Splice.newSide d.block.edits).map Token.text := by
  rw [Hunk.newSide, toHunk_edits, newSide_map]

theorem marksOld_bodyLine (e : Edit (Token Char)) :
    (bodyLine e).marksOld = true ↔ ∃ t, e.old? = some t ∧ t.ended = false := by
  cases e with
  | context t =>
    cases hended : t.ended <;>
      simp [bodyLine, BodyLine.marksOld, markerOf, HunkLine.oldCount, Edit.old?, hended]
  | remove t =>
    cases hended : t.ended <;>
      simp [bodyLine, BodyLine.marksOld, markerOf, HunkLine.oldCount, Edit.old?, hended]
  | add t => simp [bodyLine, BodyLine.marksOld, HunkLine.oldCount, Edit.old?]

theorem marksNew_bodyLine (e : Edit (Token Char)) :
    (bodyLine e).marksNew = true ↔ ∃ t, e.new? = some t ∧ t.ended = false := by
  cases e with
  | context t =>
    cases hended : t.ended <;>
      simp [bodyLine, BodyLine.marksNew, markerOf, HunkLine.newCount, Edit.new?, hended]
  | remove t => simp [bodyLine, BodyLine.marksNew, HunkLine.newCount, Edit.new?]
  | add t =>
    cases hended : t.ended <;>
      simp [bodyLine, BodyLine.marksNew, markerOf, HunkLine.newCount, Edit.new?, hended]

/-- The markers of a hunk are those of the lines that are not ended. -/
theorem toHunk_oldEnds : (d.toHunk p).oldEndsWithoutNewline = true ↔
    ∃ t ∈ Splice.oldSide d.block.edits, t.ended = false := by
  simp only [toHunk, Hunk.extend, Bool.false_or, List.any_eq_true, List.mem_map, Splice.oldSide,
    List.mem_filterMap]
  constructor
  · rintro ⟨_, ⟨e, he, rfl⟩, hmarks⟩
    obtain ⟨t, ht, hended⟩ := (marksOld_bodyLine e).mp hmarks
    exact ⟨t, ⟨e, he, ht⟩, hended⟩
  · rintro ⟨t, ⟨e, he, ht⟩, hended⟩
    exact ⟨_, ⟨e, he, rfl⟩, (marksOld_bodyLine e).mpr ⟨t, ht, hended⟩⟩

theorem toHunk_newEnds : (d.toHunk p).newEndsWithoutNewline = true ↔
    ∃ t ∈ Splice.newSide d.block.edits, t.ended = false := by
  simp only [toHunk, Hunk.extend, Bool.false_or, List.any_eq_true, List.mem_map, Splice.newSide,
    List.mem_filterMap]
  constructor
  · rintro ⟨_, ⟨e, he, rfl⟩, hmarks⟩
    obtain ⟨t, ht, hended⟩ := (marksNew_bodyLine e).mp hmarks
    exact ⟨t, ⟨e, he, ht⟩, hended⟩
  · rintro ⟨t, ⟨e, he, ht⟩, hended⟩
    exact ⟨_, ⟨e, he, rfl⟩, (marksNew_bodyLine e).mpr ⟨t, ht, hended⟩⟩

theorem toHunk_firstLine? : (d.toHunk p).firstLine? = some (p + d.block.gap.length) := by
  unfold Hunk.firstLine? toHunk startNumber Hunk.extend
  dsimp only
  split_ifs with hlen hstart
  · rfl
  · omega
  · rfl

theorem toHunk_firstLine : (d.toHunk p).firstLine = p + d.block.gap.length := by
  unfold Hunk.firstLine toHunk startNumber Hunk.extend
  dsimp only
  split_ifs
  · rfl
  · rfl

theorem toHunk_replacement : (d.toHunk p).replacement = Replacement.map Token.text
    ⟨p + d.block.gap.length, d.oldLen, Splice.newSide d.block.edits⟩ := by
  rw [Hunk.replacement, toHunk_firstLine, toHunk_newSide]
  rfl

end DiffHunk

theorem toHunks_replacement (p : ℕ) : (toHunks p ds).map Hunk.replacement =
    (replacements p (ds.map DiffHunk.block)).map (Replacement.map Token.text) := by
  induction ds generalizing p with
  | nil => rfl
  | cons d ds ih =>
    rw [toHunks, List.map_cons, DiffHunk.toHunk_replacement, ih]
    rfl

theorem toHunks_exact (p : ℕ) : Exact (toHunks p ds) := by
  induction ds generalizing p with
  | nil => simp [Exact, toHunks]
  | cons d ds ih =>
    refine List.forall_mem_cons.mpr ⟨?_, ih _⟩
    rw [DiffHunk.toHunk_oldSide, List.length_map]
    rfl

theorem length_toHunks (p : ℕ) : (toHunks p ds).length = ds.length := by
  induction ds generalizing p with
  | nil => rfl
  | cons d ds ih => rw [toHunks, List.length_cons, ih, List.length_cons]

/-- The hunks of a diff fit its old lines. -/
theorem fits_toHunks {all before tail : List (Token Char)} {hadTrailingNewline : Bool}
    (hall : all = before ++ ds.flatMap (fun d => d.block.old) ++ tail)
    (hlines : AreLines '\n' all)
    (hhad : ∀ t, all.getLast? = some t → (hadTrailingNewline = false ↔ t.ended = false)) :
    Fits (all.map Token.text) hadTrailingNewline before.length (toHunks before.length ds) := by
  induction ds generalizing before with
  | nil => simp [toHunks, Fits, hall]
  | cons d ds ih =>
    have hnext : all = (before ++ d.block.old) ++ ds.flatMap (fun d => d.block.old) ++ tail := by
      rw [hall, List.flatMap_cons, ← List.append_assoc]
    have hfits := ih hnext
    have hsplit : all = (before ++ d.block.gap) ++ (oldSide d.block.edits ++
        (ds.flatMap (fun d => d.block.old) ++ tail)) := by
      rw [hnext, Block.old]
      simp
    have hlen := congrArg List.length hsplit
    rw [List.length_append, List.length_append, List.length_append] at hlen
    have hold : d.block.old.length = d.block.gap.length + d.oldLen := List.length_append
    have hlen' : all.length = before.length + d.block.gap.length +
        (d.oldLen + (ds.flatMap (fun d => d.block.old) ++ tail).length) := hlen
    have hsides := hlines
    rw [hsplit] at hsides
    obtain ⟨hside, -, hlast⟩ := hsides.append.2.1.append
    have hfirst : before.length + d.block.gap.length + d.oldLen =
        before.length + d.block.old.length := by omega
    refine ⟨?_, ?_, ?_⟩
    · rw [DiffHunk.toHunk_firstLine]
      refine ⟨DiffHunk.toHunk_firstLine?, Nat.le_add_right _ _, ?_, ?_⟩
      · show before.length + d.block.gap.length + d.oldLen ≤ _
        rw [List.length_map]
        omega
      · show _ ↔ (before.length + d.block.gap.length + d.oldLen = (all.map Token.text).length ∧
          0 < d.oldLen) ∧ _
        rw [DiffHunk.toHunk_oldEnds, hside.exists_iff, List.length_map]
        constructor
        · rintro ⟨t, ht, hended⟩
          have hnil := hlast t (List.mem_of_getLast? ht) hended
          have hpos : 0 < d.oldLen := List.length_pos_of_mem (List.mem_of_getLast? ht)
          rw [hnil, List.length_nil] at hlen'
          refine ⟨⟨by omega, hpos⟩, (hhad t ?_).mpr hended⟩
          rw [hsplit, hnil, List.append_nil, List.getLast?_append, ht]
          rfl
        · rintro ⟨⟨hend, hpos⟩, hfalse⟩
          have hnil : ds.flatMap (fun d => d.block.old) ++ tail = [] :=
            List.length_eq_zero_iff.mp (by omega)
          cases hget : (oldSide d.block.edits).getLast? with
          | none =>
            have hzero := congrArg List.length (List.getLast?_eq_none_iff.mp hget)
            exact absurd hzero (Nat.ne_of_gt hpos)
          | some t =>
            refine ⟨t, rfl, (hhad t ?_).mp hfalse⟩
            rw [hsplit, hnil, List.append_nil, List.getLast?_append, hget]
            rfl
    · rw [DiffHunk.toHunk_firstLine, DiffHunk.toHunk_oldSide, ← List.map_drop, hsplit,
        ← List.length_append, List.drop_left, ← List.map_take]
      show _ = ((oldSide d.block.edits ++ _).take (oldSide d.block.edits).length).map _
      rw [List.take_left]
    · rw [DiffHunk.toHunk_firstLine]
      show Fits _ _ (before.length + d.block.gap.length + d.oldLen) _
      rw [hfirst]
      rwa [List.length_append] at hfits

theorem getLast?_toHunks {d : DiffHunk} {q : ℕ} (h : ds.getLast? = some d) :
    ∃ p, (toHunks q ds).getLast? = some (d.toHunk p) := by
  induction ds generalizing q with
  | nil => cases h
  | cons d' ds ih =>
    cases ds with
    | nil =>
      rw [List.getLast?_singleton, Option.some.injEq] at h
      subst h
      exact ⟨q, rfl⟩
    | cons d'' ds =>
      rw [List.getLast?_cons_cons] at h
      obtain ⟨p, hp⟩ := @ih (q + d'.block.old.length) h
      exact ⟨p, by rw [toHunks, toHunks, List.getLast?_cons_cons]; exact hp⟩

namespace UnifiedDiff

variable {d : UnifiedDiff} {s t : List Char}

theorem Between.lines_old (h : d.Between s t) : lines '\n' s = d.script.old.map Token.text := by
  rw [← h.old, lines_spell h.oldLines]

theorem Between.lines_new (h : d.Between s t) : lines '\n' t = d.script.new.map Token.text := by
  rw [← h.new, lines_spell h.newLines]

theorem Between.unterminated_old (h : d.Between s t) : Unterminated '\n' s ↔
    ∃ x, d.script.old.getLast? = some x ∧ x.ended = false := by
  rw [← h.old, unterminated_spell h.oldLines]

theorem Between.unterminated_new (h : d.Between s t) : Unterminated '\n' t ↔
    ∃ x, d.script.new.getLast? = some x ∧ x.ended = false := by
  rw [← h.new, unterminated_spell h.newLines]

/-- The hunks fit the old text. -/
theorem Between.fits (h : d.Between s t) :
    Fits (lines '\n' s) (s.getLast? = some '\n') 0 (toHunks 0 d.hunks) := by
  rw [h.lines_old]
  refine @fits_toHunks d.hunks _ [] d.tail _ ?_ h.oldLines ?_
  · rw [script_old, List.nil_append]
  · intro x hx
    have hne : s ≠ [] := by
      rw [ne_eq, ← @lines_eq_nil _ _ '\n', h.lines_old, List.map_eq_nil_iff]
      intro hnil
      rw [hnil] at hx
      cases hx
    rw [decide_eq_false_iff_not]
    have hun := h.unterminated_old
    rw [hx] at hun
    simpa [Unterminated, hne] using hun

/-- What is written are the lines of the new text, and the hunks reach the end when no line
follows them. -/
theorem Between.wantedLines (h : d.Between s t) :
    Marginalis.wantedLines s (toHunks 0 d.hunks) = lines '\n' t ∧
      stop 0 ((toHunks 0 d.hunks).map Hunk.replacement) + d.tail.length =
        (lines '\n' s).length := by
  obtain ⟨hsplice, -, hstop⟩ := @splice_replacements _ d.script.old [] d.tail d.script.blocks rfl
  have hstops : ∀ (rs : List (Replacement (Token Char))) c,
      stop c (rs.map (Replacement.map Token.text)) = stop c rs := by
    intro rs
    induction rs with
    | nil => exact fun _ => rfl
    | cons r rs ih => exact fun _ => ih _
  constructor
  · rw [Marginalis.wantedLines, h.lines_old, h.lines_new, toHunks_replacement, splice_map]
    exact congrArg _ hsplice
  · rw [toHunks_replacement, hstops, h.lines_old, List.length_map]
    exact hstop

/-- Nothing follows the last hunk, and it leaves no line. -/
def EmptiesEnd (d : UnifiedDiff) : Prop :=
  d.tail = [] ∧ ∀ last ∈ d.hunks.getLast?, newSide last.block.edits = []

/-- When the written text ends as the new text does. -/
theorem Between.ends_iff (h : d.Between s t) (hne : s ≠ t) :
    (t ≠ [] → (endsWithoutNewline s (toHunks 0 d.hunks) = true ↔ Unterminated '\n' t)) ↔
      ¬(d.EmptiesEnd ∧ Unterminated '\n' t) := by
  obtain ⟨last, hlast⟩ : ∃ last, d.hunks.getLast? = some last :=
    Option.ne_none_iff_exists'.mp fun hnone =>
      h.hunks_ne_nil hne (List.getLast?_eq_none_iff.mp hnone)
  obtain ⟨p, hp⟩ := @getLast?_toHunks _ _ 0 hlast
  obtain ⟨-, hstop⟩ := h.wantedLines
  have hreplacement : ((toHunks 0 d.hunks).map Hunk.replacement).getLast? =
      some (last.toHunk p).replacement := by
    rw [List.getLast?_map, hp]
    rfl
  rw [stop_eq_of_getLast? hreplacement] at hstop
  have hreaches : (last.toHunk p).ReachesEnd s ↔ d.tail = [] := by
    rw [← List.length_eq_zero_iff]
    show (last.toHunk p).replacement.first + (last.toHunk p).replacement.len = _ ↔ _
    omega
  unfold endsWithoutNewline
  simp only [hp]
  by_cases htail : d.tail = []
  · -- the last hunk says how the text ends
    have hnew : d.script.new = d.hunks.dropLast.flatMap (fun d => d.block.new) ++
        last.block.gap ++ newSide last.block.edits := by
      have hhunks : d.hunks = d.hunks.dropLast ++ [last] :=
        (List.dropLast_append_getLast? last hlast).symm
      rw [script_new, htail, List.append_nil]
      nth_rewrite 1 [hhunks]
      simp [Block.new]
    have hside := h.newLines
    rw [hnew] at hside
    rw [if_pos (hreaches.mpr htail), DiffHunk.toHunk_newEnds, hside.append.2.1.exists_iff,
      h.unterminated_new, hnew]
    by_cases hempty : newSide last.block.edits = []
    · have hemptied : d.EmptiesEnd := by
        refine ⟨htail, fun last' hlast' => ?_⟩
        obtain rfl := Option.some.inj (hlast.symm.trans hlast')
        exact hempty
      simp only [hempty, hemptied, List.getLast?_nil, true_and]
      refine ⟨fun hends hun => ?_, fun hun _ => iff_of_false (by simp) hun⟩
      have hnil : t ≠ [] := by
        rintro rfl
        rw [hempty] at hnew
        have hzero := h.lines_new
        rw [lines, if_pos rfl, eq_comm, List.map_eq_nil_iff, hnew] at hzero
        rw [hzero] at hun
        simp at hun
      exact absurd ((hends hnil).mpr hun) (by simp)
    · have hkept : ¬d.EmptiesEnd := fun hemptied => hempty (hemptied.2 last hlast)
      have hget : (d.hunks.dropLast.flatMap (fun d => d.block.new) ++ last.block.gap ++
          newSide last.block.edits).getLast? = (newSide last.block.edits).getLast? := by
        rw [List.getLast?_append]
        cases hcases : (newSide last.block.edits).getLast? with
        | none => exact absurd (List.getLast?_eq_none_iff.mp hcases) hempty
        | some x => rfl
      rw [hget]
      exact iff_of_true (fun _ => Iff.rfl) fun hand => hkept hand.1
  · -- the end of both texts is that of the tail
    have hkept : ¬d.EmptiesEnd := fun hemptied => htail hemptied.1
    have hgets : ∀ front : List (Token Char), (front ++ d.tail).getLast? = d.tail.getLast? := by
      intro front
      rw [List.getLast?_append]
      cases hcases : d.tail.getLast? with
      | none => exact absurd (List.getLast?_eq_none_iff.mp hcases) htail
      | some x => rfl
    have hsource : s ≠ [] := by
      rw [ne_eq, ← @lines_eq_nil _ _ '\n', h.lines_old, List.map_eq_nil_iff, script_old]
      simp [htail]
    rw [if_neg (fun hend => htail (hreaches.mp hend)), start_endsWithoutNewline,
      h.unterminated_old, h.unterminated_new, script_old, script_new, hgets, hgets]
    refine iff_of_true (fun _ => ?_) fun hand => hkept hand.1
    simp [hsource]

/-- A diff within the limits applies to its old text, and the result is its new text unless that
is one empty line, or is unterminated while the last hunk only removes the end of the old text. -/
theorem patch_complete_iff (d : UnifiedDiff) (s t : List Char) (h : d.Between s t) (hne : s ≠ t)
    (hs : s.length < usizeBound) (ht : t.length < usizeBound)
    (hbytes : utf8Len d.render ≤ notePolicy.maxPatchBytes)
    (hhunks : d.hunks.length ≤ notePolicy.maxPatchHunks) :
    ∃ outcome, applyNotePatch s d.render = .ok outcome ∧
      (outcome.source = t ↔ t ≠ ['\n'] ∧ ¬(d.EmptiesEnd ∧ Unterminated '\n' t)) := by
  have hparse := parsePatch_render h hne hs ht
  have happly := (applyNotePatch_of_exact hparse (toHunks_exact 0)).mpr
    ⟨⟨hbytes, by rwa [length_toHunks], h.fits⟩, rfl⟩
  refine ⟨_, happly, ?_⟩
  dsimp only
  rw [h.wantedLines.1, joinOutput_lines, h.ends_iff hne]

/-- The diff from one line to one empty line. -/
def emptiedLine : UnifiedDiff where
  hunks := [⟨⟨[], [.remove ⟨['a'], true⟩, .add ⟨[], true⟩]⟩, ⟨false, false, []⟩⟩]
  tail := []

/-- It applies, and the result is empty. -/
theorem emptiedLine_not_complete : emptiedLine.Between "a\n".toList "\n".toList ∧
    ∃ outcome, applyNotePatch "a\n".toList emptiedLine.render = .ok outcome ∧
      outcome.source = [] ∧ outcome.source ≠ "\n".toList := by
  have happly : applyNotePatch "a\n".toList emptiedLine.render = .ok ⟨[], 1, 1, 1⟩ := by
    decide +kernel
  refine ⟨⟨?_, ?_, ?_, ?_, ?_, ?_⟩, _, happly, rfl, by decide⟩
  · exact ⟨by decide, by simp⟩
  · exact ⟨by decide, by simp⟩
  · decide
  · decide
  · simp [emptiedLine]
  · simp [emptiedLine]

/-- The diff that replaces an unterminated line behind a kept one. -/
def changedEnd : UnifiedDiff where
  hunks := [⟨⟨[], [.context ⟨['a'], true⟩, .remove ⟨['b'], false⟩, .add ⟨['c'], false⟩]⟩,
    ⟨false, true, " = Title".toList⟩⟩]
  tail := []

theorem changedEnd_complete : ∃ outcome,
    applyNotePatch "a\nb".toList changedEnd.render = .ok outcome ∧
      outcome.source = "a\nc".toList := by
  have hbetween : changedEnd.Between "a\nb".toList "a\nc".toList := by
    refine ⟨?_, ?_, ?_, ?_, ?_, ?_⟩
    · exact ⟨by decide, rfl, by decide, by simp⟩
    · exact ⟨by decide, rfl, by decide, by simp⟩
    · decide
    · decide
    · simp [changedEnd]
    · rintro hunk hhunk
      obtain rfl := List.mem_singleton.mp hhunk
      decide
  obtain ⟨outcome, happly, hsource⟩ := patch_complete_iff changedEnd "a\nb".toList "a\nc".toList
    hbetween (by decide) (by decide) (by decide) (by decide +kernel) (by decide)
  refine ⟨outcome, happly, hsource.mpr ⟨by decide, ?_⟩⟩
  rintro ⟨⟨-, hempty⟩, -⟩
  exact absurd (hempty _ rfl) (by simp)

end UnifiedDiff

end Marginalis
