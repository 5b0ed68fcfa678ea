import Marginalis.NotePatch
import Mathlib.Data.Option.Basic

/-!
# The grammar of patches

A patch is two file headers and hunks. A hunk is a header and body lines, each with the marker
that can follow it (`HunkText`). The grammar asks that a body has exactly the lines its header
announced on either side, and that a marker follows the last line of a side
(`HunkText.Strict`).

The loop that reads a body stops when both sides have enough lines, so it also reads lines of a
side that is complete already, and it takes a marker after any line. A patch on which it does
neither is told by reading its lines once (`noSurplus`) : of the texts that `parsePatch`
accepts, these are the ones in the grammar (`strictPatch_iff`). No text makes the parser or the
application panic (`parsePatch_ne_panicked`, `applyNotePatch_ne_panicked`).
-/

namespace Marginalis

/-! ## Body lines -/

/-- What a body line says, by its first character. -/
def hunkLine? : List Char → Option HunkLine
  | [] => some (.context [])
  | ' ' :: text => some (.context text)
  | '-' :: text => some (.remove text)
  | '+' :: text => some (.add text)
  | _ :: _ => none

theorem parseHunkLine_eq (body : PatchLine) : parseHunkLine body =
    match hunkLine? body.1 with
    | some line => .ok line
    | none => .error (.error (.invalidFormat (body.2 + 1))) := by
  obtain ⟨text, index⟩ := body
  cases text with
  | nil => rfl
  | cons c text =>
    by_cases hcontext : c = ' '
    · subst hcontext
      rfl
    by_cases hremove : c = '-'
    · subst hremove
      rfl
    by_cases hadd : c = '+'
    · subst hadd
      rfl
    simp [parseHunkLine, hunkLine?, hcontext, hremove, hadd]

theorem hunkLine?_of_parseHunkLine {body : PatchLine} {line : HunkLine}
    (h : parseHunkLine body = .ok line) : hunkLine? body.1 = some line := by
  rw [parseHunkLine_eq] at h
  split at h
  · next l hl =>
    cases h
    exact hl
  · cases h

/-- Every line counts on some side. -/
theorem HunkLine.count_pos (line : HunkLine) : 0 < line.oldCount + line.newCount := by
  cases line <;> simp [oldCount, newCount]

theorem HunkLine.count_le_one (line : HunkLine) : line.oldCount ≤ 1 ∧ line.newCount ≤ 1 := by
  cases line <;> simp [oldCount, newCount]

/-- A line of a body and the marker after it. -/
structure BodyLine where
  text : List Char
  line : HunkLine
  reads : hunkLine? text = some line
  marker : Option (List Char)
  marks : ∀ m ∈ marker, m.head? = some '\\'

namespace BodyLine

def spell (x : BodyLine) : List (List Char) := x.text :: x.marker.toList

/-- The marker is one of the old side. -/
def marksOld (x : BodyLine) : Bool := x.marker.isSome && x.line.oldCount == 1

def marksNew (x : BodyLine) : Bool := x.marker.isSome && x.line.newCount == 1

end BodyLine

variable {x : BodyLine} {body : List BodyLine} {hunk hunk' : Hunk} {headerLine seenOld seenNew : ℕ}
  {lines rest : List PatchLine} {o n : ℕ}

/-- The lines of a body. -/
def spellBody (body : List BodyLine) : List (List Char) := body.flatMap BodyLine.spell

/-- The lines of a body on the old side. -/
def oldCount (body : List BodyLine) : ℕ := (body.map fun x => x.line.oldCount).sum

def newCount (body : List BodyLine) : ℕ := (body.map fun x => x.line.newCount).sum

@[simp] theorem spellBody_cons :
    spellBody (x :: body) = x.text :: (x.marker.toList ++ spellBody body) :=
  rfl

@[simp] theorem oldCount_cons : oldCount (x :: body) = x.line.oldCount + oldCount body := rfl

@[simp] theorem newCount_cons : newCount (x :: body) = x.line.newCount + newCount body := rfl

/-- A marker stands after the last line of the old side, or of the new one. -/
def MarkersLast : List BodyLine → Prop
  | [] => True
  | x :: after => (x.marker.isSome = true → x.line.oldCount = 1 ∧ oldCount after = 0 ∨
      x.line.newCount = 1 ∧ newCount after = 0) ∧ MarkersLast after

/-- The hunk with the lines of a body added. -/
def Hunk.extend (hunk : Hunk) (body : List BodyLine) : Hunk :=
  { hunk with
    lines := hunk.lines ++ body.map BodyLine.line
    oldEndsWithoutNewline := hunk.oldEndsWithoutNewline || body.any BodyLine.marksOld
    newEndsWithoutNewline := hunk.newEndsWithoutNewline || body.any BodyLine.marksNew }

@[simp] theorem Hunk.extend_nil : hunk.extend [] = hunk := by
  simp [Hunk.extend]

theorem Hunk.extend_cons : hunk.extend (x :: body) = (hunk.extend [x]).extend body := by
  simp [Hunk.extend, Bool.or_assoc]

/-- A marker after a line of a hunk. -/
theorem Hunk.mark_concat (line : HunkLine) :
    Hunk.mark { hunk with lines := hunk.lines ++ [line] } = .ok { hunk with
      lines := hunk.lines ++ [line]
      oldEndsWithoutNewline := hunk.oldEndsWithoutNewline || line.oldCount == 1
      newEndsWithoutNewline := hunk.newEndsWithoutNewline || line.newCount == 1 } := by
  cases line <;> simp [Hunk.mark, HunkLine.oldCount, HunkLine.newCount]

/-! ## Reading a patch once -/

/-- No line of the patch counts on a side that is complete, and every marker follows the last
line of a side. `o` and `n` lines are still announced for the open hunk. -/
def noSurplus : ℕ → ℕ → List (List Char) → Bool
  | _, _, [] => true
  | o, n, line :: lines =>
    if o = 0 ∧ n = 0 then
      match parseHunkHeader line with
      | some (_, oldLen, newLen) => noSurplus oldLen newLen lines
      | none => true
    else
      match hunkLine? line with
      | none => true
      | some l =>
        decide (l.oldCount ≤ o ∧ l.newCount ≤ n) &&
          match lines with
          | [] => true
          | marker :: rest =>
            if marker.head? = some '\\' then
              decide (l.oldCount = 1 ∧ o = 1 ∨ l.newCount = 1 ∧ n = 1) &&
                noSurplus (o - l.oldCount) (n - l.newCount) rest
            else noSurplus (o - l.oldCount) (n - l.newCount) (marker :: rest)

theorem noSurplus_body {line : List Char} {l : HunkLine} {lines : List (List Char)}
    (hopen : ¬(o = 0 ∧ n = 0)) (hline : hunkLine? line = some l)
    (hmarker : ∀ marker ∈ lines.head?, marker.head? ≠ some '\\') :
    noSurplus o n (line :: lines) = true ↔ (l.oldCount ≤ o ∧ l.newCount ≤ n) ∧
      noSurplus (o - l.oldCount) (n - l.newCount) lines = true := by
  cases lines with
  | nil => simp [noSurplus, hopen, hline]
  | cons marker rest =>
    have hne := hmarker marker rfl
    rw [noSurplus, if_neg hopen]
    simp only [hline, if_neg hne, Bool.and_eq_true, decide_eq_true_eq]

theorem noSurplus_marked {line marker : List Char} {l : HunkLine} {lines : List (List Char)}
    (hopen : ¬(o = 0 ∧ n = 0)) (hline : hunkLine? line = some l)
    (hmarker : marker.head? = some '\\') :
    noSurplus o n (line :: marker :: lines) = true ↔ (l.oldCount ≤ o ∧ l.newCount ≤ n) ∧
      (l.oldCount = 1 ∧ o = 1 ∨ l.newCount = 1 ∧ n = 1) ∧
      noSurplus (o - l.oldCount) (n - l.newCount) lines = true := by
  rw [noSurplus, if_neg hopen]
  simp only [hline, if_pos hmarker, Bool.and_eq_true, decide_eq_true_eq]

theorem noSurplus_header {line : List Char} {lines : List (List Char)} {oldStart : ℕ}
    (h : parseHunkHeader line = some (oldStart, o, n)) :
    noSurplus 0 0 (line :: lines) = noSurplus o n lines := by
  rw [noSurplus, if_pos ⟨rfl, rfl⟩]
  simp only [h]

/-! ## Bodies -/

/-- The loop reads a body, and when no line of it is surplus the body is one of the grammar. -/
theorem exists_body_of_readHunk : ∀ {lines : List PatchLine} {hunk : Hunk} {seenOld seenNew : ℕ},
    readHunk headerLine hunk seenOld seenNew lines = .ok (hunk', rest) →
    seenOld ≤ hunk.oldLen → seenNew ≤ hunk.newLen →
    noSurplus (hunk.oldLen - seenOld) (hunk.newLen - seenNew) (lines.map Prod.fst) = true →
    ∃ body, lines.map Prod.fst = spellBody body ++ rest.map Prod.fst ∧ hunk' = hunk.extend body ∧
      oldCount body = hunk.oldLen - seenOld ∧ newCount body = hunk.newLen - seenNew ∧
      MarkersLast body ∧ noSurplus 0 0 (rest.map Prod.fst) = true := by
  intro lines
  induction hn : lines.length using Nat.strong_induction_on generalizing lines with
  | _ m ih =>
    intro hunk seenOld seenNew h hold hnew hscan
    subst hn
    rcases readHunk_cases h with ⟨hdone, rfl, rfl⟩ | ⟨hmore, body, line, lines', rfl, hline, hrest⟩
    · have h₁ : hunk'.oldLen - seenOld = 0 := by omega
      have h₂ : hunk'.newLen - seenNew = 0 := by omega
      rw [h₁, h₂] at hscan ⊢
      exact ⟨[], rfl, by simp, rfl, rfl, trivial, hscan⟩
    · have hopen : ¬(hunk.oldLen - seenOld = 0 ∧ hunk.newLen - seenNew = 0) := by omega
      have hreads := hunkLine?_of_parseHunkLine hline
      rcases hrest with ⟨marker, lines'', marked, rfl, hmarker, hmarked, hread⟩ | ⟨hmarker, hread⟩
      · rw [List.map_cons, List.map_cons, noSurplus_marked hopen hreads hmarker] at hscan
        obtain ⟨⟨hle, hle'⟩, hlast, hscan⟩ := hscan
        rw [Hunk.mark_concat, Except.ok.injEq] at hmarked
        subst hmarked
        obtain ⟨after, hspell, rfl, ho, hn', hlasts, hscan⟩ :=
          ih lines''.length (by simp only [List.length_cons]; omega) rfl hread
            (show seenOld + line.oldCount ≤ hunk.oldLen by omega)
            (show seenNew + line.newCount ≤ hunk.newLen by omega)
            (by rw [← Nat.sub_sub, ← Nat.sub_sub]; exact hscan)
        dsimp only at ho hn'
        refine ⟨⟨body.1, line, hreads, some marker.1, by simpa [isMarker] using hmarker⟩ :: after,
          ?_, ?_, ?_,
          ?_, ⟨fun _ => ?_, hlasts⟩, hscan⟩
        · simp [hspell]
        · rw [Hunk.extend_cons]
          simp [Hunk.extend, BodyLine.marksOld, BodyLine.marksNew]
        · rw [oldCount_cons]
          dsimp only
          omega
        · rw [newCount_cons]
          dsimp only
          omega
        · dsimp only
          omega
      · rw [List.map_cons, noSurplus_body hopen hreads] at hscan
        · obtain ⟨⟨hle, hle'⟩, hscan⟩ := hscan
          obtain ⟨after, hspell, rfl, ho, hn', hlasts, hscan⟩ :=
            ih lines'.length (by simp) rfl hread
              (show seenOld + line.oldCount ≤ hunk.oldLen by omega)
              (show seenNew + line.newCount ≤ hunk.newLen by omega)
              (by rw [← Nat.sub_sub, ← Nat.sub_sub]; exact hscan)
          dsimp only at ho hn'
          refine ⟨⟨body.1, line, hreads, none, by simp⟩ :: after, ?_, ?_, ?_, ?_, ⟨by simp, hlasts⟩,
            hscan⟩
          · simp [hspell]
          · rw [Hunk.extend_cons]
            simp [Hunk.extend, BodyLine.marksOld, BodyLine.marksNew]
          · rw [oldCount_cons]
            dsimp only
            omega
          · rw [newCount_cons]
            dsimp only
            omega
        · intro m hm
          rw [List.head?_map, Option.mem_map] at hm
          obtain ⟨marker, hmem, rfl⟩ := hm
          exact hmarker marker hmem

theorem readHunk_line {body : PatchLine} {line : HunkLine}
    (hmore : seenOld < hunk.oldLen ∨ seenNew < hunk.newLen)
    (hline : hunkLine? body.1 = some line) (hmarker : ∀ marker ∈ lines.head?, ¬isMarker marker) :
    readHunk headerLine hunk seenOld seenNew (body :: lines) =
      readHunk headerLine (hunk.extend [⟨body.1, line, hline, none, by simp⟩])
        (seenOld + line.oldCount) (seenNew + line.newCount) lines := by
  have hparse : parseHunkLine body = .ok line := by rw [parseHunkLine_eq, hline]
  have hextend : hunk.extend [⟨body.1, line, hline, none, by simp⟩] =
      { hunk with lines := hunk.lines ++ [line] } := by
    simp [Hunk.extend, BodyLine.marksOld, BodyLine.marksNew]
  rw [hextend, readHunk, if_pos hmore]
  simp only [hparse, bind, Except.bind]
  cases lines with
  | nil => rfl
  | cons marker rest =>
    have hne : ¬marker.1.head? = some '\\' := hmarker marker rfl
    simp only [if_neg hne]

theorem readHunk_marked {body marker : PatchLine} {line : HunkLine}
    (hmore : seenOld < hunk.oldLen ∨ seenNew < hunk.newLen)
    (hline : hunkLine? body.1 = some line) (hmarker : marker.1.head? = some '\\') :
    readHunk headerLine hunk seenOld seenNew (body :: marker :: lines) =
      readHunk headerLine
        (hunk.extend [⟨body.1, line, hline, some marker.1, by simpa using hmarker⟩])
        (seenOld + line.oldCount) (seenNew + line.newCount) lines := by
  have hparse : parseHunkLine body = .ok line := by rw [parseHunkLine_eq, hline]
  rw [readHunk, if_pos hmore]
  simp only [hparse, bind, Except.bind, if_pos hmarker, Hunk.mark_concat]
  simp [Hunk.extend, BodyLine.marksOld, BodyLine.marksNew]

theorem head?_ne_of_hunkLine? {text : List Char} {line : HunkLine}
    (h : hunkLine? text = some line) : text.head? ≠ some '\\' := by
  intro hhead
  obtain ⟨tail, rfl⟩ := List.head?_eq_some_iff.mp hhead
  simp [hunkLine?] at h

/-- The first line of a body and what follows it is no marker. -/
theorem head?_spellBody_append {ls : List (List Char)}
    (hls : ∀ l ∈ ls.head?, l.head? ≠ some '\\') :
    ∀ l ∈ (spellBody body ++ ls).head?, l.head? ≠ some '\\' := by
  cases body with
  | nil => exact hls
  | cons x body =>
    intro l hl
    obtain rfl : x.text = l := by simpa using hl
    exact head?_ne_of_hunkLine? x.reads

/-- The loop reads a body with the announced counts, up to a line that is no marker. -/
theorem readHunk_spellBody (hrest : ∀ marker ∈ rest.head?, ¬isMarker marker) :
    ∀ {body : List BodyLine} {front : List PatchLine} {hunk : Hunk} {seenOld seenNew : ℕ},
    front.map Prod.fst = spellBody body → seenOld + oldCount body = hunk.oldLen →
    seenNew + newCount body = hunk.newLen →
    readHunk headerLine hunk seenOld seenNew (front ++ rest) = .ok (hunk.extend body, rest) := by
  intro body
  induction body with
  | nil =>
    intro front hunk seenOld seenNew hfront ho hn
    obtain rfl : front = [] := List.map_eq_nil_iff.mp hfront
    have hdone : ¬(seenOld < hunk.oldLen ∨ seenNew < hunk.newLen) := by
      simp only [oldCount, newCount, List.map_nil, List.sum_nil] at ho hn
      omega
    rw [List.nil_append, readHunk.eq_def, if_neg hdone, Hunk.extend_nil]
  | cons x body ih =>
    intro front hunk seenOld seenNew hfront ho hn
    rw [oldCount_cons] at ho
    rw [newCount_cons] at hn
    have hpos := x.line.count_pos
    have hmore : seenOld < hunk.oldLen ∨ seenNew < hunk.newLen := by omega
    rw [spellBody_cons, List.map_eq_cons_iff] at hfront
    obtain ⟨first, front, rfl, hfirst, hfront⟩ := hfront
    have hline : hunkLine? first.1 = some x.line := by rw [hfirst, x.reads]
    rw [Hunk.extend_cons]
    cases hmarker : x.marker with
    | none =>
      rw [hmarker, Option.toList_none, List.nil_append] at hfront
      have hx : (⟨first.1, x.line, hline, none, by simp⟩ : BodyLine) = x := by
        cases x
        simp_all
      have hnext : ∀ marker ∈ (front ++ rest).head?, ¬isMarker marker := by
        intro m hm hmark
        have hls := @head?_spellBody_append body (rest.map Prod.fst) (by
          intro l hl
          rw [List.head?_map, Option.mem_map] at hl
          obtain ⟨m', hm', rfl⟩ := hl
          exact hrest m' hm')
        rw [← hfront, ← List.map_append] at hls
        exact hls m.1 (by rw [List.head?_map]; exact Option.mem_map_of_mem _ hm) hmark
      rw [List.cons_append, readHunk_line hmore hline hnext, hx]
      refine ih hfront ?_ ?_
      · show seenOld + x.line.oldCount + oldCount body = hunk.oldLen
        omega
      · show seenNew + x.line.newCount + newCount body = hunk.newLen
        omega
    | some text =>
      rw [hmarker, Option.toList_some, List.singleton_append, List.map_eq_cons_iff] at hfront
      obtain ⟨marker, front, rfl, hm, hfront⟩ := hfront
      have hmark : marker.1.head? = some '\\' := by rw [hm]; exact x.marks text hmarker
      have hx : (⟨first.1, x.line, hline, some marker.1, by simpa using hmark⟩ : BodyLine) = x := by
        cases x
        simp_all
      rw [List.cons_append, List.cons_append, readHunk_marked hmore hline hmark, hx]
      refine ih hfront ?_ ?_
      · show seenOld + x.line.oldCount + oldCount body = hunk.oldLen
        omega
      · show seenNew + x.line.newCount + newCount body = hunk.newLen
        omega

/-- A body of the grammar has no surplus line. -/
theorem noSurplus_spellBody {ls : List (List Char)} (hls : ∀ l ∈ ls.head?, l.head? ≠ some '\\') :
    ∀ {body : List BodyLine}, MarkersLast body →
      (noSurplus (oldCount body) (newCount body) (spellBody body ++ ls) = true ↔
        noSurplus 0 0 ls = true) := by
  intro body
  induction body with
  | nil => exact fun _ => Iff.rfl
  | cons x body ih =>
    rintro ⟨hlast, hlasts⟩
    have hpos := x.line.count_pos
    rw [spellBody_cons, oldCount_cons, newCount_cons, List.cons_append]
    have hopen : ¬(x.line.oldCount + oldCount body = 0 ∧ x.line.newCount + newCount body = 0) := by
      omega
    cases hmarker : x.marker with
    | none =>
      rw [Option.toList_none, List.nil_append,
        noSurplus_body hopen x.reads (head?_spellBody_append hls), Nat.add_sub_cancel_left,
        Nat.add_sub_cancel_left, ih hlasts]
      exact and_iff_right ⟨by omega, by omega⟩
    | some text =>
      have hmark := x.marks text hmarker
      have hside := hlast (by rw [hmarker]; rfl)
      rw [Option.toList_some, List.singleton_append, List.cons_append,
        noSurplus_marked hopen x.reads hmark, Nat.add_sub_cancel_left, Nat.add_sub_cancel_left,
        ih hlasts]
      have hcount := x.line.count_le_one
      exact ⟨fun h => h.2.2, fun h => ⟨⟨by omega, by omega⟩, by omega, h⟩⟩

/-! ## Hunks -/

/-- A hunk as it is written. -/
structure HunkText where
  header : List Char
  oldStart : ℕ
  oldLen : ℕ
  newLen : ℕ
  reads : parseHunkHeader header = some (oldStart, oldLen, newLen)
  body : List BodyLine

namespace HunkText

def spell (t : HunkText) : List (List Char) := t.header :: spellBody t.body

/-- The hunk that is read from it. -/
def toHunk (t : HunkText) : Hunk :=
  (⟨t.oldStart, t.oldLen, t.newLen, [], false, false⟩ : Hunk).extend t.body

/-- The body has exactly the announced lines on either side, and markers after last lines
only. -/
structure Strict (t : HunkText) : Prop where
  old : oldCount t.body = t.oldLen
  new : newCount t.body = t.newLen
  markers : MarkersLast t.body

end HunkText

/-- A hunk header starts with an at sign. -/
theorem head?_of_parseHunkHeader {header : List Char} {range : ℕ × ℕ × ℕ}
    (h : parseHunkHeader header = some range) : ∃ tail, header = '@' :: '@' :: tail := by
  unfold parseHunkHeader at h
  rw [Option.bind_eq_bind, Option.bind_eq_some_iff] at h
  obtain ⟨rest, hstrip, -⟩ := h
  unfold stripPrefix at hstrip
  split at hstrip
  · next hprefix =>
    obtain ⟨tail, rfl⟩ := List.isPrefixOf_iff_prefix.mp hprefix
    exact ⟨_, rfl⟩
  · cases hstrip

theorem not_isFileHeader {header : List Char} {range : ℕ × ℕ × ℕ}
    (h : parseHunkHeader header = some range) : isFileHeader header = false := by
  obtain ⟨tail, rfl⟩ := head?_of_parseHunkHeader h
  rfl

theorem head?_spell_ne (texts : List HunkText) :
    ∀ l ∈ (texts.flatMap HunkText.spell).head?, l.head? ≠ some '\\' := by
  cases texts with
  | nil => simp
  | cons t texts =>
    intro l hl
    obtain rfl : t.header = l := by simpa [HunkText.spell] using hl
    obtain ⟨tail, htail⟩ := head?_of_parseHunkHeader t.reads
    simp [htail]

/-- The loop over the hunks reads hunks of the grammar from lines without surplus. -/
theorem exists_texts_of_parseHunks : ∀ {lines : List PatchLine} {hunks : List Hunk},
    parseHunks lines = .ok hunks → noSurplus 0 0 (lines.map Prod.fst) = true →
    ∃ texts : List HunkText, lines.map Prod.fst = texts.flatMap HunkText.spell ∧
      hunks = texts.map HunkText.toHunk ∧ ∀ t ∈ texts, t.Strict := by
  intro lines
  fun_induction parseHunks lines with
  | case1 =>
    rintro hunks ⟨⟩ -
    exact ⟨[], rfl, rfl, by simp⟩
  | case2 => rintro hunks ⟨⟩
  | case3 => rintro hunks ⟨⟩
  | case4 => rintro hunks ⟨⟩
  | case5 header index lines hfile oldStart oldLen newLen hheader hunk rest hread ih =>
    intro hunks h hscan
    obtain ⟨tail, htail, rfl⟩ := Except.map_eq_ok.mp h
    rw [List.map_cons, noSurplus_header hheader] at hscan
    obtain ⟨body, hbody, rfl, ho, hn, hmarkers, hscan⟩ := exists_body_of_readHunk hread
      (Nat.zero_le _) (Nat.zero_le _) hscan
    obtain ⟨texts, htexts, rfl, hstrict⟩ := ih htail hscan
    refine ⟨⟨header, oldStart, oldLen, newLen, hheader, body⟩ :: texts, ?_, rfl, ?_⟩
    · simp [HunkText.spell, hbody, htexts]
    · exact List.forall_mem_cons.mpr ⟨⟨ho, hn, hmarkers⟩, hstrict⟩

/-- Hunks of the grammar are read as what they say. -/
theorem parseHunks_spell : ∀ {texts : List HunkText} {lines : List PatchLine},
    lines.map Prod.fst = texts.flatMap HunkText.spell → (∀ t ∈ texts, t.Strict) →
    parseHunks lines = .ok (texts.map HunkText.toHunk) := by
  intro texts
  induction texts with
  | nil =>
    intro lines hlines _
    obtain rfl : lines = [] := List.map_eq_nil_iff.mp hlines
    rw [parseHunks]
    rfl
  | cons t texts ih =>
    intro lines hlines hstrict
    obtain ⟨ht, hstrict⟩ := List.forall_mem_cons.mp hstrict
    rw [List.flatMap_cons, HunkText.spell, List.cons_append, List.map_eq_cons_iff] at hlines
    obtain ⟨⟨header, index⟩, lines, rfl, hheader, hlines⟩ := hlines
    obtain ⟨front, rest, rfl, hfront, hrest⟩ := List.map_eq_append_iff.mp hlines
    have hreads : parseHunkHeader header = some (t.oldStart, t.oldLen, t.newLen) := by
      rw [show header = t.header from hheader, t.reads]
    have hmarker : ∀ marker ∈ rest.head?, ¬isMarker marker := by
      intro m hm hmark
      refine head?_spell_ne texts m.1 ?_ hmark
      rw [← hrest, List.head?_map]
      exact Option.mem_map_of_mem _ hm
    have hread : readHunk (index + 1) ⟨t.oldStart, t.oldLen, t.newLen, [], false, false⟩ 0 0
        (front ++ rest) = .ok (t.toHunk, rest) :=
      readHunk_spellBody hmarker hfront ((Nat.zero_add _).trans ht.old)
        ((Nat.zero_add _).trans ht.new)
    rw [parseHunks, not_isFileHeader hreads, if_neg Bool.false_ne_true]
    simp only [hreads]
    split
    · next e he =>
      rw [hread] at he
      cases he
    · next hunk rest' hok =>
      rw [hread] at hok
      cases hok
      rw [ih hrest hstrict]
      rfl

theorem noSurplus_spell {texts : List HunkText} (hstrict : ∀ t ∈ texts, t.Strict) :
    noSurplus 0 0 (texts.flatMap HunkText.spell) = true := by
  induction texts with
  | nil => rfl
  | cons t texts ih =>
    obtain ⟨ht, hstrict⟩ := List.forall_mem_cons.mp hstrict
    rw [List.flatMap_cons, HunkText.spell, List.cons_append, noSurplus_header t.reads, ← ht.old,
      ← ht.new, noSurplus_spellBody (head?_spell_ne texts) ht.markers]
    exact ih hstrict

/-! ## Patches -/

/-- The lines of a patch. -/
def patchLines (patch : List Char) : List (List Char) := (stripFinalNewline patch).splitOn '\n'

/-- What a parsed patch looks like : two file headers and hunks. -/
theorem parsePatch_eq_ok {patch : List Char} {hunks : List Hunk} : parsePatch patch = .ok hunks ↔
    ∃ oldHeader newHeader lines, (patchLines patch).zipIdx = oldHeader :: newHeader :: lines ∧
      trimEnd oldHeader.1 = "--- a/note.adoc".toList ∧
      trimEnd newHeader.1 = "+++ b/note.adoc".toList ∧ parseHunks lines = .ok hunks ∧
      hunks ≠ [] := by
  unfold parsePatch patchLines
  by_cases hnil : patch = []
  · subst hnil
    simp [stripFinalNewline]
  rw [if_neg hnil]
  cases ((stripFinalNewline patch).splitOn '\n').zipIdx with
  | nil => simp
  | cons oldHeader lines =>
    obtain ⟨oldHeader, i⟩ := oldHeader
    by_cases hold : trimEnd oldHeader = "--- a/note.adoc".toList
    · dsimp only
      rw [if_neg (not_not.mpr hold)]
      cases lines with
      | nil => simp
      | cons newHeader lines =>
        obtain ⟨newHeader, j⟩ := newHeader
        by_cases hnew : trimEnd newHeader = "+++ b/note.adoc".toList
        · dsimp only
          rw [if_neg (not_not.mpr hnew)]
          cases hparse : parseHunks lines with
          | error e => simp [hparse]
          | ok found =>
            cases found with
            | nil => simp [hparse]
            | cons hunk found =>
              simp only [List.cons.injEq, Except.ok.injEq]
              constructor
              · rintro rfl
                exact ⟨_, _, _, ⟨rfl, rfl, rfl⟩, hold, hnew, hparse, by simp⟩
              · rintro ⟨_, _, _, ⟨rfl, rfl, rfl⟩, -, -, hparse', -⟩
                rw [hparse, Except.ok.injEq] at hparse'
                exact hparse'
        · dsimp only
          rw [if_pos hnew]
          simp only [reduceCtorEq, false_iff]
          rintro ⟨_, _, _, hlines, -, hnew', -⟩
          cases hlines
          exact hnew hnew'
    · dsimp only
      rw [if_pos hold]
      simp only [reduceCtorEq, false_iff]
      rintro ⟨_, _, _, hlines, hold', -⟩
      cases hlines
      exact hold hold'

/-- The patch is one of the grammar, and has these hunks. -/
def StrictPatch (patch : List Char) (hunks : List Hunk) : Prop :=
  ∃ oldHeader newHeader, ∃ texts : List HunkText,
    patchLines patch = oldHeader :: newHeader :: texts.flatMap HunkText.spell ∧
    trimEnd oldHeader = "--- a/note.adoc".toList ∧ trimEnd newHeader = "+++ b/note.adoc".toList ∧
    texts ≠ [] ∧ hunks = texts.map HunkText.toHunk ∧ ∀ t ∈ texts, t.Strict

/-- The lines after the file headers have no surplus. -/
def PatchNoSurplus (patch : List Char) : Prop := noSurplus 0 0 ((patchLines patch).drop 2) = true

instance (patch : List Char) : Decidable (PatchNoSurplus patch) :=
  inferInstanceAs (Decidable (_ = true))

/-- The patches of the grammar are those the parser accepts that have no surplus line. -/
theorem strictPatch_iff {patch : List Char} {hunks : List Hunk} :
    StrictPatch patch hunks ↔ parsePatch patch = .ok hunks ∧ PatchNoSurplus patch := by
  constructor
  · rintro ⟨oldHeader, newHeader, texts, hlines, hold, hnew, hne, rfl, hstrict⟩
    refine ⟨parsePatch_eq_ok.mpr ⟨(oldHeader, 0), (newHeader, 1),
      (texts.flatMap HunkText.spell).zipIdx 2, by rw [hlines]; rfl, hold, hnew, ?_, by simpa⟩, ?_⟩
    · exact parseHunks_spell (List.zipIdx_map_fst ..) hstrict
    · unfold PatchNoSurplus
      rw [hlines]
      exact noSurplus_spell hstrict
  · rintro ⟨hparse, hscan⟩
    obtain ⟨oldHeader, newHeader, lines, hlines, hold, hnew, hhunks, hne⟩ :=
      parsePatch_eq_ok.mp hparse
    have hfst : patchLines patch = oldHeader.1 :: newHeader.1 :: lines.map Prod.fst := by
      rw [← List.zipIdx_map_fst 0 (patchLines patch), hlines]
      rfl
    unfold PatchNoSurplus at hscan
    rw [hfst] at hscan
    obtain ⟨texts, htexts, rfl, hstrict⟩ := exists_texts_of_parseHunks hhunks hscan
    rw [htexts] at hfst
    exact ⟨oldHeader.1, newHeader.1, texts, hfst, hold, hnew, by simpa using hne, rfl, hstrict⟩

/-! ## Nothing panics -/

/-- A computation that does not panic, followed by ones that do not. -/
theorem bind_ne_panicked {α β : Type} {m : Except PatchFailure α} {f : α → Except PatchFailure β}
    (hm : m ≠ .error .panicked) (hf : ∀ a, m = .ok a → f a ≠ .error .panicked) :
    (m >>= f) ≠ .error .panicked := by
  cases m with
  | error e => simpa [bind, Except.bind] using hm
  | ok a => exact hf a rfl

theorem parseHunkLine_ne_panicked (body : PatchLine) :
    parseHunkLine body ≠ .error .panicked := by
  rw [parseHunkLine_eq]
  split <;> simp

theorem readHunk_ne_panicked : ∀ {lines : List PatchLine} {hunk : Hunk} {seenOld seenNew : ℕ},
    readHunk headerLine hunk seenOld seenNew lines ≠ .error .panicked := by
  intro lines
  induction hn : lines.length using Nat.strong_induction_on generalizing lines with
  | _ m ih =>
    intro hunk seenOld seenNew
    subst hn
    rw [readHunk.eq_def]
    by_cases hmore : seenOld < hunk.oldLen ∨ seenNew < hunk.newLen
    · rw [if_pos hmore]
      cases lines with
      | nil => simp
      | cons body lines =>
        refine bind_ne_panicked (parseHunkLine_ne_panicked body) fun line _ => ?_
        cases lines with
        | nil => exact ih 0 (by simp) rfl
        | cons marker lines =>
          dsimp only
          split
          · refine bind_ne_panicked ?_ fun marked _ =>
              ih lines.length (by simp only [List.length_cons]; omega) rfl
            rw [Hunk.mark_concat]
            simp
          · exact ih (marker :: lines).length (by simp) rfl
    · rw [if_neg hmore]
      simp

theorem parseHunks_ne_panicked (lines : List PatchLine) :
    parseHunks lines ≠ .error .panicked := by
  fun_induction parseHunks lines with
  | case1 => simp
  | case2 => simp
  | case3 => simp
  | case4 header index lines hfile oldStart oldLen newLen hheader e hread =>
    rintro ⟨⟩
    exact readHunk_ne_panicked hread
  | case5 header index lines hfile oldStart oldLen newLen hheader hunk rest hread ih =>
    cases hrest : parseHunks rest with
    | error e => simpa [Except.map, hrest] using ih
    | ok hunks => simp [Except.map]

theorem parsePatch_ne_panicked (patch : List Char) : parsePatch patch ≠ .error .panicked := by
  unfold parsePatch
  split_ifs
  · simp
  split
  · simp
  split_ifs
  · simp
  split
  · simp
  split_ifs
  · simp
  split
  · next e he =>
    rintro ⟨⟩
    exact parseHunks_ne_panicked _ he
  · simp
  · simp

section Application

variable {sourceLines : List (List Char)} {hadTrailingNewline : Bool} {hunkNumber firstLine : ℕ}
  {state state' : Application}

/-- The old range of a hunk is ahead of the cursor and within the source, and its old side is
marked exactly when it ends where an unterminated source does. -/
structure Hunk.Admitted (hunk : Hunk) (sourceLines : List (List Char)) (hadTrailingNewline : Bool)
    (cursor firstLine : ℕ) : Prop where
  first : hunk.firstLine? = some firstLine
  order : cursor ≤ firstLine
  range : firstLine + hunk.oldLen ≤ sourceLines.length
  marked : hunk.oldEndsWithoutNewline = true ↔
    (firstLine + hunk.oldLen = sourceLines.length ∧ 0 < hunk.oldLen) ∧ hadTrailingNewline = false

/-- The state in which the body of an admitted hunk is applied. -/
def Application.copyTo (state : Application) (sourceLines : List (List Char)) (firstLine : ℕ) :
    Application :=
  { state with
    output := state.output ++ (sourceLines.drop state.cursor).take (firstLine - state.cursor)
    cursor := firstLine }

/-- The state after the body of a hunk. -/
def Application.finish (state : Application) (sourceLines : List (List Char)) (hunk : Hunk) :
    Application :=
  if state.cursor = sourceLines.length then
    { state with outputEndsWithoutNewline := hunk.newEndsWithoutNewline }
  else state

/-- The body of an admitted hunk is applied where the old range starts. -/
theorem applyHunk_of_admitted
    (h : hunk.Admitted sourceLines hadTrailingNewline state.cursor firstLine) :
    applyHunk sourceLines hadTrailingNewline hunkNumber state hunk =
      (hunk.lines.foldlM (applyLine sourceLines hunkNumber)
        (state.copyTo sourceLines firstLine)).map fun s => s.finish sourceLines hunk := by
  obtain ⟨hfirst, horder, hrange, hmarked⟩ := h
  have hslice : sliceLines sourceLines state.cursor firstLine =
      .ok ((sourceLines.drop state.cursor).take (firstLine - state.cursor)) := by
    unfold sliceLines
    rw [if_pos ⟨horder, by omega⟩]
  unfold applyHunk
  simp only [hfirst, not_lt.mpr horder, not_lt.mpr hrange, if_false, hslice]
  have h₁ : ¬(hunk.oldEndsWithoutNewline = true ∧
      ¬((firstLine + hunk.oldLen = sourceLines.length ∧ 0 < hunk.oldLen) ∧
        ¬hadTrailingNewline = true)) := by
    rw [hmarked, Bool.not_eq_true]
    tauto
  have h₂ : ¬((firstLine + hunk.oldLen = sourceLines.length ∧ 0 < hunk.oldLen) ∧
      ¬hadTrailingNewline = true ∧ ¬hunk.oldEndsWithoutNewline = true) := by
    rw [hmarked, Bool.not_eq_true]
    tauto
  simp only [bind, Except.bind, pure, Except.pure, if_neg h₁, if_neg h₂, Application.copyTo,
    Application.finish, Except.map]

variable (hunkNumber) in
/-- Any other hunk is refused. -/
theorem applyHunk_of_not_admitted
    (h : ∀ firstLine, ¬hunk.Admitted sourceLines hadTrailingNewline state.cursor firstLine) :
    ∃ e, applyHunk sourceLines hadTrailingNewline hunkNumber state hunk = .error (.error e) := by
  unfold applyHunk
  cases hfirst : hunk.firstLine? with
  | none => exact ⟨_, rfl⟩
  | some firstLine =>
    by_cases horder : firstLine < state.cursor
    · exact ⟨_, by simp only [horder, if_true]; rfl⟩
    by_cases hrange : sourceLines.length < firstLine + hunk.oldLen
    · exact ⟨_, by simp only [horder, hrange, if_true, if_false]; rfl⟩
    have hslice : sliceLines sourceLines state.cursor firstLine =
        .ok ((sourceLines.drop state.cursor).take (firstLine - state.cursor)) := by
      unfold sliceLines
      rw [if_pos ⟨by omega, by omega⟩]
    simp only [horder, hrange, if_false, hslice]
    by_cases h₁ : hunk.oldEndsWithoutNewline = true ∧
        ¬((firstLine + hunk.oldLen = sourceLines.length ∧ 0 < hunk.oldLen) ∧
          ¬hadTrailingNewline = true)
    · exact ⟨_, by simp only [bind, Except.bind, pure, Except.pure, if_pos h₁]; rfl⟩
    by_cases h₂ : (firstLine + hunk.oldLen = sourceLines.length ∧ 0 < hunk.oldLen) ∧
        ¬hadTrailingNewline = true ∧ ¬hunk.oldEndsWithoutNewline = true
    · exact ⟨_, by simp only [bind, Except.bind, pure, Except.pure, if_neg h₁, if_pos h₂]; rfl⟩
    refine absurd ⟨hfirst, not_lt.mp horder, not_lt.mp hrange, ?_⟩ (h firstLine)
    rw [Bool.eq_false_iff]
    tauto

theorem applyLine_context {text : List Char} :
    applyLine sourceLines hunkNumber state (.context text) =
      if sourceLines[state.cursor]? = some text then
        .ok { state with output := state.output ++ [text], cursor := state.cursor + 1 }
      else .error (.error (.hunkMismatch hunkNumber (state.cursor + 1))) := by
  simp only [applyLine, ne_eq, ite_not]

theorem applyLine_remove {text : List Char} :
    applyLine sourceLines hunkNumber state (.remove text) =
      if sourceLines[state.cursor]? = some text then
        .ok { state with linesRemoved := state.linesRemoved + 1, cursor := state.cursor + 1 }
      else .error (.error (.hunkMismatch hunkNumber (state.cursor + 1))) := by
  simp only [applyLine, ne_eq, ite_not]

/-- A line that applies leaves the cursor within the source. -/
theorem applyLine_cursor {line : HunkLine} (hle : state.cursor ≤ sourceLines.length)
    (h : applyLine sourceLines hunkNumber state line = .ok state') :
    state'.cursor ≤ sourceLines.length := by
  cases line with
  | add text =>
    cases h
    exact hle
  | context text =>
    rw [applyLine_context] at h
    split_ifs at h with hline
    cases h
    exact (List.getElem?_eq_some_iff.mp hline).1
  | remove text =>
    rw [applyLine_remove] at h
    split_ifs at h with hline
    cases h
    exact (List.getElem?_eq_some_iff.mp hline).1

theorem applyLine_ne_panicked (line : HunkLine) :
    applyLine sourceLines hunkNumber state line ≠ .error .panicked := by
  cases line with
  | add text => simp [applyLine]
  | context text =>
    rw [applyLine_context]
    split_ifs <;> simp
  | remove text =>
    rw [applyLine_remove]
    split_ifs <;> simp

theorem applyLines_ne_panicked (lines : List HunkLine) :
    lines.foldlM (applyLine sourceLines hunkNumber) state ≠ .error .panicked := by
  induction lines generalizing state with
  | nil => simp [pure, Except.pure]
  | cons line lines ih =>
    rw [List.foldlM_cons]
    exact bind_ne_panicked (applyLine_ne_panicked line) fun _ _ => ih

theorem applyHunk_ne_panicked : applyHunk sourceLines hadTrailingNewline hunkNumber state hunk ≠
    .error .panicked := by
  by_cases h : ∃ firstLine, hunk.Admitted sourceLines hadTrailingNewline state.cursor firstLine
  · obtain ⟨firstLine, h⟩ := h
    rw [applyHunk_of_admitted h]
    cases hlines : hunk.lines.foldlM (applyLine sourceLines hunkNumber)
        (state.copyTo sourceLines firstLine) with
    | error e =>
      rintro ⟨⟩
      exact applyLines_ne_panicked _ hlines
    | ok state' => simp [Except.map]
  · obtain ⟨e, he⟩ := applyHunk_of_not_admitted hunkNumber (not_exists.mp h)
    simp [he]

/-- A hunk that applies leaves the cursor within the source. -/
theorem applyHunk_cursor (h : applyHunk sourceLines hadTrailingNewline hunkNumber state hunk =
    .ok state') : state'.cursor ≤ sourceLines.length := by
  by_cases hadmitted : ∃ firstLine,
      hunk.Admitted sourceLines hadTrailingNewline state.cursor firstLine
  · obtain ⟨firstLine, hadmitted⟩ := hadmitted
    rw [applyHunk_of_admitted hadmitted, Except.map_eq_ok] at h
    obtain ⟨applied, happlied, rfl⟩ := h
    have hrange := hadmitted.range
    have hle : applied.cursor ≤ sourceLines.length :=
      Except.foldlM_invariant (P := fun s => s.cursor ≤ sourceLines.length) happlied
        (show firstLine ≤ sourceLines.length by omega)
        fun _ _ _ _ hs hstep => applyLine_cursor hs hstep
    unfold Application.finish
    split_ifs
    · exact hle
    · exact hle
  · obtain ⟨e, he⟩ := applyHunk_of_not_admitted hunkNumber (not_exists.mp hadmitted)
    rw [he] at h
    cases h

theorem applyHunks_ne_panicked (hunks : List Hunk) :
    applyHunks sourceLines hadTrailingNewline hunkNumber state hunks ≠ .error .panicked := by
  induction hunks generalizing hunkNumber state with
  | nil => simp [applyHunks]
  | cons hunk hunks ih => exact bind_ne_panicked applyHunk_ne_panicked fun _ _ => ih

theorem applyHunks_cursor {hunks : List Hunk} (hle : state.cursor ≤ sourceLines.length)
    (h : applyHunks sourceLines hadTrailingNewline hunkNumber state hunks = .ok state') :
    state'.cursor ≤ sourceLines.length := by
  induction hunks generalizing hunkNumber state with
  | nil =>
    cases h
    exact hle
  | cons hunk hunks ih =>
    obtain ⟨next, hnext, h⟩ := Except.bind_eq_ok.mp h
    exact ih (applyHunk_cursor hnext) h

end Application

theorem applyNotePatch_ne_panicked (source patch : List Char) :
    applyNotePatch source patch ≠ .error .panicked := by
  unfold applyNotePatch
  by_cases hsize : notePolicy.maxPatchBytes < utf8Len patch
  · simp [hsize, throw, throwThe, MonadExceptOf.throw, bind, Except.bind]
  simp only [if_neg hsize]
  refine bind_ne_panicked (parsePatch_ne_panicked patch) fun hunks _ => ?_
  by_cases hmany : notePolicy.maxPatchHunks < hunks.length
  · simp [hmany, throw, throwThe, MonadExceptOf.throw, bind, Except.bind]
  simp only [if_neg hmany]
  refine bind_ne_panicked (applyHunks_ne_panicked hunks) fun state hstate =>
    bind_ne_panicked ?_ fun rest _ => ?_
  · have hle := applyHunks_cursor (Nat.zero_le _) hstate
    simp [sliceLines, hle]
  · simp [pure, Except.pure]

/-- Of the texts that the parser accepts, those of the grammar are the ones without surplus
lines, it accepts all of the grammar, and neither it nor the application panics on any text. -/
theorem parse_patch_strict_iff (source patch : List Char) :
    (∀ hunks, parsePatch patch = .ok hunks →
      (StrictPatch patch hunks ↔ PatchNoSurplus patch)) ∧
    (∀ hunks, StrictPatch patch hunks → parsePatch patch = .ok hunks) ∧
    parsePatch patch ≠ .error .panicked ∧ applyNotePatch source patch ≠ .error .panicked :=
  ⟨fun hunks h => by rw [strictPatch_iff, h]; simp, fun hunks h => (strictPatch_iff.mp h).1,
    parsePatch_ne_panicked patch, applyNotePatch_ne_panicked source patch⟩

/-- A hunk that announces one old line and removes two. -/
def surplusPatch : List Char :=
  "--- a/note.adoc\n+++ b/note.adoc\n@@ -1,1 +1,2 @@\n-a\n-b\n+c\n+d\n".toList

/-- The parser accepts it, and so does the application. -/
theorem parsePatch_surplus : (∃ hunks, parsePatch surplusPatch = .ok hunks ∧
      ¬StrictPatch surplusPatch hunks) ∧
    applyNotePatch "a\nb\n".toList surplusPatch = .ok ⟨"c\nd\n".toList, 1, 2, 2⟩ := by
  have hparse : parsePatch surplusPatch = .ok [⟨1, 1, 2, [.remove ['a'], .remove ['b'],
      .add ['c'], .add ['d']], false, false⟩] := by
    decide +kernel
  have hscan : ¬PatchNoSurplus surplusPatch := by
    decide +kernel
  exact ⟨⟨_, hparse, fun h => hscan (strictPatch_iff.mp h).2⟩, by decide +kernel⟩

/-- A hunk with the lines it announces. -/
def exactPatch : List Char :=
  "--- a/note.adoc\n+++ b/note.adoc\n@@ -1,2 +1,2 @@\n-a\n-b\n+c\n+d\n".toList

theorem parse_patch_strict_iff_exact : ∃ hunks, StrictPatch exactPatch hunks := by
  have hparse : parsePatch exactPatch = .ok [⟨1, 2, 2, [.remove ['a'], .remove ['b'],
      .add ['c'], .add ['d']], false, false⟩] := by
    decide +kernel
  have hscan : PatchNoSurplus exactPatch := by
    decide +kernel
  exact ⟨_, ((parse_patch_strict_iff [] exactPatch).1 _ hparse).mpr hscan⟩

end Marginalis
