import Mathlib.Data.Fintype.EquivFin
import Mathlib.Data.List.Basic
import Marginalis.Diagnostics
import Marginalis.RankedRanges
import Marginalis.TextLines

/-!
# The outline of a note and its fragments

`outline` lists the headings of a source with the lines their sections take, and
`sourceFragment` cuts a range of lines out of a source. Agents read the outline first and use its
ranges as addresses of fragments. What finds the headings is not part of the repository
(`Analysis`).

Whatever the levels of the headings are, the ranges are a forest and every one of them can be
read (`outline_ranges`), and the fragments of ranges that follow one another from the first line
to the last put the source together.
-/

namespace Marginalis

/-! ## The outline -/

structure NoteOutlineSection where
  level : ℕ
  title : String
  anchor : Option String
  startLine : ℕ
  endLine : ℕ
  deriving DecidableEq, Repr

structure NoteOutline where
  sections : List NoteOutlineSection
  lineCount : ℕ
  deriving DecidableEq, Repr

namespace NoteOutline

inductive SectionKind
  | documentTitle
  | other
  deriving DecidableEq, Repr

/-- A heading as the analysis finds it. -/
structure Heading where
  kind : SectionKind
  level : ℕ
  title : String
  id : String
  range : Utf8ByteSpan
  idRange : Utf8ByteSpan
  titleRange : Utf8ByteSpan
  deriving DecidableEq, Repr

/-- What is known of an analysed source. -/
structure Analysis where
  headings : List Heading
  sourcePosition : Utf8ByteSpan → Option NoteSourcePosition

structure RenderError where
  deriving DecidableEq, Repr

/-- The lines of a source. A final newline is not counted as a line. -/
def sourceLineCount (source : List Char) : ℕ :=
  if source = [] then 0
  else if source.getLast? = some '\n' then (source.splitOn '\n').length - 1
  else (source.splitOn '\n').length

/-- The section of a heading, with a range up to the end of the source. An id that was not
written has the range of the title, and is not given as an anchor. -/
def openSection (analysis : Analysis) (lineCount : ℕ) (heading : Heading) :
    Except RenderError NoteOutlineSection :=
  match analysis.sourcePosition heading.range with
  | none => .error {}
  | some position => .ok {
      level := heading.level
      title := heading.title
      anchor := if heading.idRange ≠ heading.titleRange then some heading.id else none
      startLine := position.line
      endLine := lineCount }

/-- Ends a section before the first later boundary of the same or a smaller level. -/
def closeSection (boundaries : List (ℕ × ℕ)) (s : NoteOutlineSection) (index : ℕ) :
    NoteOutlineSection :=
  match (boundaries.drop (index + 1)).find? fun boundary => boundary.2 ≤ s.level with
  | some (nextStart, _) => { s with endLine := nextStart - 1 }
  | none => s

/-- Every section takes the lines up to the next heading that is not below it. -/
def closeSections (sections : List NoteOutlineSection) : List NoteOutlineSection :=
  let boundaries := sections.map fun s => (s.startLine, s.level)
  sections.zipIdx.map fun (s, index) => closeSection boundaries s index

/-- The headings that are not the title of the document. -/
def Analysis.sectionHeadings (analysis : Analysis) : List Heading :=
  analysis.headings.filter fun heading => heading.kind ≠ .documentTitle

/-- The lines the headings start at. -/
def Analysis.startLines (analysis : Analysis) : List (Option ℕ) :=
  analysis.sectionHeadings.map fun heading =>
    (analysis.sourcePosition heading.range).map NoteSourcePosition.line

def outline (analyzeValidSource : List Char → Except RenderError Analysis) (source : List Char) :
    Except RenderError NoteOutline := do
  let analysis ← analyzeValidSource source
  let lineCount := sourceLineCount source
  let sections ← analysis.sectionHeadings.mapM (openSection analysis lineCount)
  pure { sections := closeSections sections, lineCount }

/-- The lines from `startLine` to `endLine`, counted from 1. -/
def sourceFragment (source : List Char) (startLine endLine : ℕ) : Option (List Char) :=
  if startLine = 0 ∨ endLine < startLine then none
  else
    let lines := TextLines.lines '\n' source
    if lines.length < endLine then none
    else
      let fragment := ['\n'].intercalate ((lines.take endLine).drop (startLine - 1))
      some (if endLine < lines.length ∨ source.getLast? = some '\n' then fragment ++ ['\n']
        else fragment)

/-! ## Ranges that follow one another -/

/-- The lines from `next` to `count` in consecutive ranges. -/
def Consecutive (count : ℕ) : ℕ → List (ℕ × ℕ) → Prop
  | next, [] => next = count + 1
  | next, (startLine, endLine) :: ranges =>
    startLine = next ∧ startLine ≤ endLine ∧ Consecutive count (endLine + 1) ranges

theorem Consecutive.le {count next : ℕ} {ranges : List (ℕ × ℕ)}
    (h : Consecutive count next ranges) : next ≤ count + 1 := by
  induction ranges generalizing next with
  | nil => exact Nat.le_of_eq h
  | cons range ranges ih =>
    obtain ⟨hstart, hle, hrest⟩ := h
    have := ih hrest
    omega

/-! ## The ranges as a forest -/

section Ranges

variable (o : NoteOutline)

def start (i : Fin o.sections.length) : ℕ := (o.sections.get i).startLine

def stop (i : Fin o.sections.length) : ℕ := (o.sections.get i).endLine

def level (i : Fin o.sections.length) : ℕ := (o.sections.get i).level

/-- The ranges are nested and apart as the levels say. -/
structure IsForest : Prop where
  within : ∀ i, o.start i ≤ o.stop i ∧ o.stop i ≤ o.lineCount
  child : ∀ i j, RankedRanges.Parent o.level i j → o.start i < o.start j ∧ o.stop j ≤ o.stop i
  siblings : ∀ i j, RankedRanges.Siblings o.level i j → i < j → o.stop i < o.start j
  laminar : ∀ i j, i < j →
    o.stop i < o.start j ∨ o.start i < o.start j ∧ o.stop j ≤ o.stop i
  ends : ∀ i, RankedRanges.EndsAt o.start o.level o.lineCount i (o.stop i)

variable {o}

theorem isForest_of_ranges (h : RankedRanges.Ranges o.start o.stop o.level o.lineCount) :
    o.IsForest where
  within i := ⟨h.start_le_stop i, h.stop_le i⟩
  child _ _ := h.child
  siblings _ _ := h.siblings
  laminar _ _ := h.laminar
  ends := h.ends

end Ranges

variable {source : List Char} {sections : List NoteOutlineSection} {lineCount : ℕ}

/-! ## Lines and fragments -/

theorem sourceLineCount_eq : sourceLineCount source = (TextLines.lines '\n' source).length := by
  unfold sourceLineCount TextLines.lines
  split_ifs <;> simp

/-- A range of lines that exist is put together from them. -/
theorem sourceFragment_eq {startLine endLine : ℕ} (hstart : 1 ≤ startLine)
    (hle : startLine ≤ endLine) (hend : endLine ≤ sourceLineCount source) :
    sourceFragment source startLine endLine =
      some (TextLines.unlines '\n'
        (((TextLines.lines '\n' source).take endLine).drop (startLine - 1))
        (endLine = sourceLineCount source ∧ TextLines.Unterminated '\n' source)) := by
  rw [sourceLineCount_eq] at hend ⊢
  have hsource : source ≠ [] := by
    rintro rfl
    simp [TextLines.lines] at hend
    omega
  have hne : ((TextLines.lines '\n' source).take endLine).drop (startLine - 1) ≠ [] := by
    rw [ne_eq, List.drop_eq_nil_iff, List.length_take]
    omega
  unfold sourceFragment
  rw [if_neg (by omega)]
  simp only [if_neg (not_lt.mpr hend)]
  unfold TextLines.unlines TextLines.Unterminated
  rw [if_neg hne]
  congr 1
  by_cases hlast : endLine < (TextLines.lines '\n' source).length ∨ source.getLast? = some '\n'
  · rw [if_pos hlast, if_neg]
    simp only [decide_eq_true_eq, not_and_or, not_not]
    rcases hlast with hlt | hnl
    · exact .inl (by omega)
    · exact .inr (.inr hnl)
  · rw [if_neg hlast, if_pos]
    rw [not_or] at hlast
    simp only [decide_eq_true_eq]
    exact ⟨by omega, hsource, hlast.2⟩

/-- The fragments of consecutive ranges are what is left of the source from the first of them. -/
theorem fragments_consecutive {ranges : List (ℕ × ℕ)} {next : ℕ} (hnext : 1 ≤ next)
    (h : Consecutive (sourceLineCount source) next ranges) :
    (ranges.mapM fun range => sourceFragment source range.1 range.2).map List.flatten =
      some (TextLines.unlines '\n' ((TextLines.lines '\n' source).drop (next - 1))
        (TextLines.Unterminated '\n' source)) := by
  induction ranges generalizing next with
  | nil =>
    have hnil : (TextLines.lines '\n' source).drop (next - 1) = [] := by
      have hcount : next = sourceLineCount source + 1 := h
      rw [List.drop_eq_nil_iff, ← sourceLineCount_eq]
      omega
    rw [hnil, TextLines.unlines_nil]
    rfl
  | cons range ranges ih =>
    obtain ⟨hstart, hle, hrest⟩ := h
    subst hstart
    obtain ⟨fragments, hfragments, hflatten⟩ := Option.map_eq_some_iff.mp
      (ih (Nat.le_add_left 1 range.2) hrest)
    have hend : range.2 ≤ sourceLineCount source := Nat.le_of_succ_le_succ hrest.le
    rw [Nat.add_sub_cancel] at hflatten
    have hdrop : (TextLines.lines '\n' source).drop (range.1 - 1) =
        ((TextLines.lines '\n' source).take range.2).drop (range.1 - 1) ++
          (TextLines.lines '\n' source).drop range.2 := by
      conv_lhs => rw [← List.take_append_drop range.2 (TextLines.lines '\n' source)]
      rw [List.drop_append_of_le_length]
      rw [List.length_take, ← sourceLineCount_eq]
      omega
    rw [List.mapM_cons, sourceFragment_eq hnext hle hend, hfragments, hdrop]
    simp only [Option.pure_def, Option.bind_eq_bind, Option.bind_some, Option.map_some,
      List.flatten_cons, hflatten]
    congr 1
    by_cases hlast : range.2 = sourceLineCount source
    · have hnil : (TextLines.lines '\n' source).drop range.2 = [] := by
        rw [List.drop_eq_nil_iff, ← sourceLineCount_eq, hlast]
      rw [hnil, TextLines.unlines_nil, List.append_nil, List.append_nil]
      simp [hlast]
    · have hne : (TextLines.lines '\n' source).drop range.2 ≠ [] := by
        rw [ne_eq, List.drop_eq_nil_iff, ← sourceLineCount_eq]
        omega
      rw [TextLines.unlines_append hne]
      simp [hlast]

/-! ## The closed sections -/

theorem length_closeSections (sections : List NoteOutlineSection) :
    (closeSections sections).length = sections.length := by
  simp [closeSections]

theorem get_closeSections (i : Fin (closeSections sections).length)
    (hi : i.val < sections.length) :
    (closeSections sections).get i =
      closeSection (sections.map fun s => (s.startLine, s.level)) (sections.get ⟨i, hi⟩) i := by
  obtain ⟨i, hlt⟩ := i
  simp [closeSections]

section Close

variable {boundaries : List (ℕ × ℕ)} {s : NoteOutlineSection} {index : ℕ}

@[simp] theorem closeSection_startLine :
    (closeSection boundaries s index).startLine = s.startLine := by
  unfold closeSection
  split <;> rfl

@[simp] theorem closeSection_level : (closeSection boundaries s index).level = s.level := by
  unfold closeSection
  split <;> rfl

/-- A section ends before the first later boundary that is not below it, or stays as it is. -/
theorem closeSection_endLine (boundaries : List (ℕ × ℕ)) (s : NoteOutlineSection) (index : ℕ) :
    (∃ j, ∃ hj : j < boundaries.length, index < j ∧ (boundaries.get ⟨j, hj⟩).2 ≤ s.level ∧
      (∀ k, ∀ hk : k < boundaries.length, index < k → k < j →
        s.level < (boundaries.get ⟨k, hk⟩).2) ∧
      (closeSection boundaries s index).endLine = (boundaries.get ⟨j, hj⟩).1 - 1) ∨
    (∀ j, ∀ hj : j < boundaries.length, index < j → s.level < (boundaries.get ⟨j, hj⟩).2) ∧
      (closeSection boundaries s index).endLine = s.endLine := by
  unfold closeSection
  cases hfind : (boundaries.drop (index + 1)).find? fun boundary => boundary.2 ≤ s.level with
  | some boundary =>
    obtain ⟨hlevel, m, hm, hget, hbefore⟩ := List.find?_eq_some_iff_getElem.mp hfind
    rw [List.length_drop] at hm
    rw [List.getElem_drop] at hget
    refine .inl ⟨index + 1 + m, by omega, by omega, ?_, fun k hk hik hkj => ?_, ?_⟩
    · rw [List.get_eq_getElem, hget]
      exact of_decide_eq_true hlevel
    · have hnot := hbefore (k - (index + 1)) (by omega)
      simp only [List.getElem_drop, Bool.not_eq_true', decide_eq_false_iff_not, not_le] at hnot
      rw [List.get_eq_getElem]
      simpa [show index + 1 + (k - (index + 1)) = k by omega] using hnot
    · rw [List.get_eq_getElem, hget]
  | none =>
    rw [List.find?_eq_none] at hfind
    refine .inr ⟨fun j hj hij => ?_, rfl⟩
    have hmem : boundaries.get ⟨j, hj⟩ ∈ boundaries.drop (index + 1) :=
      List.mem_drop_iff_getElem.mpr ⟨j - (index + 1), by omega, by simp; congr; omega⟩
    simpa using hfind _ hmem

end Close

/-- Closed sections have the ranges their levels say, if their lines are in order. -/
theorem ranges_closeSections (hstarts : (sections.map (·.startLine)).Pairwise (· < ·))
    (hle : ∀ s ∈ sections, s.startLine ≤ lineCount ∧ s.endLine = lineCount) :
    RankedRanges.Ranges (start ⟨closeSections sections, lineCount⟩)
      (stop ⟨closeSections sections, lineCount⟩) (level ⟨closeSections sections, lineCount⟩)
      lineCount := by
  have hbound : ∀ i : Fin (closeSections sections).length, i.val < sections.length :=
    fun i => length_closeSections sections ▸ i.isLt
  have hstart : ∀ i (hi : i.val < sections.length),
      start ⟨closeSections sections, lineCount⟩ i = (sections.get ⟨i, hi⟩).startLine := by
    intro i hi
    rw [start, get_closeSections i hi, closeSection_startLine]
  have hlevel : ∀ i (hi : i.val < sections.length),
      level ⟨closeSections sections, lineCount⟩ i = (sections.get ⟨i, hi⟩).level := by
    intro i hi
    rw [level, get_closeSections i hi, closeSection_level]
  refine ⟨fun i j hij => ?_, fun i => ?_, fun i => ?_⟩
  · have hi := hbound i
    have hj := hbound j
    rw [hstart i hi, hstart j hj]
    have hpair := List.pairwise_iff_getElem.mp hstarts i j (by simpa using hi) (by simpa using hj)
      hij
    simpa using hpair
  · have hi := hbound i
    rw [hstart i hi]
    exact (hle _ (List.get_mem ..)).1
  · have hi := hbound i
    have hstop : stop ⟨closeSections sections, lineCount⟩ i = _ :=
      congrArg NoteOutlineSection.endLine (get_closeSections i hi)
    rcases closeSection_endLine (sections.map fun s => (s.startLine, s.level))
      (sections.get ⟨i, hi⟩) i with ⟨j, hj, hij, hjlevel, hbetween, hend⟩ | ⟨hlast, hend⟩
    · rw [List.length_map] at hj
      have hj' : j < (closeSections sections).length := (length_closeSections sections).symm ▸ hj
      refine .inl ⟨⟨j, hj'⟩, ⟨hij, ?_, fun k hik hkj => ?_⟩, ?_⟩
      · rw [hlevel ⟨j, hj'⟩ hj, hlevel i hi]
        simpa using hjlevel
      · have hk := hbound k
        rw [hlevel i hi, hlevel k hk]
        simpa using hbetween k (by simpa using hk) hik hkj
      · have hlt := List.pairwise_iff_getElem.mp hstarts i j (by simpa using hi)
          (by simpa using hj) hij
        rw [hstop, hend, hstart ⟨j, hj'⟩ hj]
        simp only [List.get_eq_getElem, List.getElem_map] at hlt ⊢
        omega
    · refine .inr ⟨fun j hij => ?_, ?_⟩
      · have hj := hbound j
        rw [hlevel i hi, hlevel j hj]
        simpa using hlast j (by simpa using hj) hij
      · rw [hstop, hend]
        exact (hle _ (List.get_mem ..)).2

/-! ## The outline of a source -/

variable {analyzeValidSource : List Char → Except RenderError Analysis} {analysis : Analysis}
  {lines : List ℕ}

/-- Headings whose lines are known have sections, each up to the end of the source. -/
theorem mapM_openSection (lineCount : ℕ) {headings : List Heading}
    (hlines : (headings.map fun heading =>
      (analysis.sourcePosition heading.range).map NoteSourcePosition.line) = lines.map some) :
    ∃ sections, headings.mapM (openSection analysis lineCount) = .ok sections ∧
      sections.map (·.startLine) = lines ∧ sections.map (·.level) = headings.map (·.level) ∧
      ∀ s ∈ sections, s.endLine = lineCount := by
  induction headings generalizing lines with
  | nil =>
    have hnil : lines = [] := by simpa using hlines.symm
    exact ⟨[], rfl, hnil.symm, rfl, by simp⟩
  | cons heading headings ih =>
    obtain ⟨line, lines, rfl⟩ : ∃ line rest, lines = line :: rest := by
      cases lines with
      | nil => simp at hlines
      | cons line rest => exact ⟨line, rest, rfl⟩
    rw [List.map_cons, List.map_cons, List.cons.injEq] at hlines
    obtain ⟨position, hposition, hline⟩ := Option.map_eq_some_iff.mp hlines.1
    obtain ⟨sections, hsections, hstarts, hlevels, hends⟩ := ih hlines.2
    obtain ⟨s, hopen, hstart, hlevel, hend⟩ : ∃ s, openSection analysis lineCount heading = .ok s ∧
        s.startLine = line ∧ s.level = heading.level ∧ s.endLine = lineCount := by
      simp only [openSection, hposition, Except.ok.injEq]
      exact ⟨_, rfl, hline, rfl, rfl⟩
    refine ⟨s :: sections, ?_, ?_, ?_, ?_⟩
    · rw [List.mapM_cons, hopen, hsections]
      rfl
    · rw [List.map_cons, hstarts, hstart]
    · rw [List.map_cons, hlevels, List.map_cons, hlevel]
    · simpa [hend] using hends

/-- What a section keeps when it is closed. -/
theorem map_closeSections {β : Type} {f : NoteOutlineSection → β}
    (hf : ∀ boundaries s index, f (closeSection boundaries s index) = f s) :
    (closeSections sections).map f = sections.map f := by
  unfold closeSections
  conv_rhs => rw [← List.zipIdx_map_fst 0 sections]
  rw [List.map_map, List.map_map]
  exact List.map_congr_left fun p _ => hf _ _ _

/-- The ranges of an outline are a forest, every one of them can be read, and fragments that
follow one another put the source together. -/
theorem outline_ranges (hanalysis : analyzeValidSource source = .ok analysis)
    (hlines : analysis.startLines = lines.map some) (hincreasing : lines.Pairwise (· < ·))
    (hwithin : ∀ line ∈ lines, 1 ≤ line ∧ line ≤ sourceLineCount source) :
    ∃ o, outline analyzeValidSource source = .ok o ∧
      o.lineCount = sourceLineCount source ∧
      o.sections.map (·.startLine) = lines ∧
      o.sections.map (·.level) = analysis.sectionHeadings.map (·.level) ∧
      o.IsForest ∧
      (∀ s ∈ o.sections, (sourceFragment source s.startLine s.endLine).isSome) ∧
      ∀ ranges, Consecutive (sourceLineCount source) 1 ranges →
        (ranges.mapM fun range => sourceFragment source range.1 range.2).map List.flatten =
          some source := by
  obtain ⟨sections, hsections, hstarts, hlevels, hends⟩ :=
    mapM_openSection (sourceLineCount source) hlines
  have hmem : ∀ s ∈ sections, s.startLine ∈ lines := by
    intro s hs
    rw [← hstarts]
    exact List.mem_map_of_mem hs
  have hforest := isForest_of_ranges (ranges_closeSections (hstarts.symm ▸ hincreasing)
    fun s hs => ⟨(hwithin _ (hmem s hs)).2, hends s hs⟩)
  have hclosed : (closeSections sections).map (·.startLine) = lines :=
    (map_closeSections fun _ _ _ => closeSection_startLine).trans hstarts
  refine ⟨⟨closeSections sections, sourceLineCount source⟩, ?_, rfl, hclosed, ?_, hforest, ?_, ?_⟩
  · rw [outline, Except.bind_eq_ok]
    exact ⟨analysis, hanalysis, Except.bind_eq_ok.mpr ⟨sections, hsections, rfl⟩⟩
  · exact (map_closeSections fun _ _ _ => closeSection_level).trans hlevels
  · intro s hs
    obtain ⟨i, rfl⟩ := List.mem_iff_get.mp hs
    have hline : ((closeSections sections).get i).startLine ∈ lines := by
      rw [← hclosed]
      exact List.mem_map_of_mem hs
    obtain ⟨hle, hend⟩ := hforest.within i
    exact Option.isSome_iff_exists.mpr ⟨_, sourceFragment_eq (hwithin _ hline).1 hle hend⟩
  · intro ranges hranges
    rw [fragments_consecutive le_rfl hranges, Nat.sub_self, List.drop_zero,
      TextLines.unlines_lines]

/-- A title, and a section with a child before another one. -/
def sampleSource : List Char := "= T\n\n== A\n\na\n\n=== B\n\n== C\n".toList

/-- The headings of `sampleSource`. -/
def sampleAnalysis : Analysis where
  headings := [
    ⟨.documentTitle, 0, "T", "T", ⟨0, 3⟩, ⟨2, 3⟩, ⟨2, 3⟩⟩,
    ⟨.other, 1, "A", "A", ⟨5, 9⟩, ⟨8, 9⟩, ⟨8, 9⟩⟩,
    ⟨.other, 2, "B", "B", ⟨14, 19⟩, ⟨18, 19⟩, ⟨18, 19⟩⟩,
    ⟨.other, 1, "C", "C", ⟨21, 25⟩, ⟨24, 25⟩, ⟨24, 25⟩⟩]
  sourcePosition span :=
    some ⟨(sampleSource.take span.start).count '\n' + 1, 1⟩

theorem outline_ranges_sampleSource : ∃ o, outline (fun _ => .ok sampleAnalysis) sampleSource =
      .ok o ∧
    o.lineCount = sourceLineCount sampleSource ∧
    o.sections.map (·.startLine) = [3, 7, 9] ∧
    o.sections.map (·.level) = sampleAnalysis.sectionHeadings.map (·.level) ∧
    o.IsForest ∧
    (∀ s ∈ o.sections, (sourceFragment sampleSource s.startLine s.endLine).isSome) ∧
    ∀ ranges, Consecutive (sourceLineCount sampleSource) 1 ranges →
      (ranges.mapM fun range => sourceFragment sampleSource range.1 range.2).map List.flatten =
        some sampleSource :=
  outline_ranges rfl (by decide +kernel) (by decide) (by decide +kernel)

end NoteOutline

end Marginalis
