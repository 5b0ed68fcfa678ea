import Marginalis.PatchGrammar
import Marginalis.Splice

/-!
# What an applied patch leaves alone

A hunk names a range of the source and says what stands there before and after
(`Hunk.oldSide`, `Hunk.newSide`). The application succeeds exactly when every hunk is admitted
and its old side stands in the source (`applyHunks_eq_ok`). When every old side has the announced
length, the lines it writes are the source's with the ranges of the hunks replaced
(`output_eq_splice`).

The frame of a patch (`PatchFrame`) says so of the result as a text, and that its last line is
terminated as before unless a hunk that reaches the end says otherwise. Three kinds of patches
break it (`PatchSound`) : those with a hunk longer than announced, those whose lines the final
join loses, and those that append to an unterminated source without a marker.
-/

namespace Marginalis

open Splice TextLines

/-! ## Sides -/

def HunkLine.edit : HunkLine → Edit (List Char)
  | context text => .context text
  | remove text => .remove text
  | add text => .add text

namespace Hunk

/-- The context and removed lines. -/
def oldSide (hunk : Hunk) : List (List Char) := Splice.oldSide (hunk.lines.map HunkLine.edit)

/-- The context and added lines. -/
def newSide (hunk : Hunk) : List (List Char) := Splice.newSide (hunk.lines.map HunkLine.edit)

/-- The index of the first line of the old range. -/
def firstLine (hunk : Hunk) : ℕ := if hunk.oldLen = 0 then hunk.oldStart else hunk.oldStart - 1

/-- The old range and the lines for it. -/
def replacement (hunk : Hunk) : Replacement (List Char) :=
  ⟨hunk.firstLine, hunk.oldLen, hunk.newSide⟩

end Hunk

def HunkLine.added : HunkLine → ℕ
  | add _ => 1
  | _ => 0

def HunkLine.removed : HunkLine → ℕ
  | remove _ => 1
  | _ => 0

/-- The state after lines whose old side stands at the cursor. -/
def Application.advance (state : Application) (lines : List HunkLine) : Application :=
  { state with
    output := state.output ++ newSide (lines.map HunkLine.edit)
    cursor := state.cursor + (oldSide (lines.map HunkLine.edit)).length
    linesAdded := state.linesAdded + (lines.map HunkLine.added).sum
    linesRemoved := state.linesRemoved + (lines.map HunkLine.removed).sum }

variable {sourceLines : List (List Char)} {hadTrailingNewline : Bool} {hunkNumber : ℕ}
  {state state' : Application} {hunk : Hunk} {hunks : List Hunk}

theorem Application.advance_nil : state.advance [] = state := by
  simp [advance, oldSide, newSide]

/-- The lines of a hunk apply when its old side stands at the cursor. -/
theorem applyLines_eq_ok {lines : List HunkLine} :
    lines.foldlM (applyLine sourceLines hunkNumber) state = .ok state' ↔
      oldSide (lines.map HunkLine.edit) <+: sourceLines.drop state.cursor ∧
        state' = state.advance lines := by
  induction lines generalizing state with
  | nil =>
    rw [List.foldlM_nil, Application.advance_nil]
    simp [pure, Except.pure, eq_comm]
  | cons line lines ih =>
    rw [List.foldlM_cons, Except.bind_eq_ok, List.map_cons]
    cases line with
    | context text =>
      simp only [applyLine_context, HunkLine.edit, oldSide_context, cons_prefix_drop]
      split_ifs with hline
      · have hnext : Application.advance { state with
              output := state.output ++ [text], cursor := state.cursor + 1 } lines =
            state.advance (.context text :: lines) := by
          simp [Application.advance, HunkLine.edit, HunkLine.added, HunkLine.removed,
            Nat.add_assoc, Nat.add_comm 1]
        simp [ih, hline, hnext]
      · simp [hline]
    | remove text =>
      simp only [applyLine_remove, HunkLine.edit, oldSide_remove, cons_prefix_drop]
      split_ifs with hline
      · have hnext : Application.advance { state with
              linesRemoved := state.linesRemoved + 1, cursor := state.cursor + 1 } lines =
            state.advance (.remove text :: lines) := by
          simp [Application.advance, HunkLine.edit, HunkLine.added, HunkLine.removed,
            Nat.add_assoc, Nat.add_comm 1]
        simp [ih, hline, hnext]
      · simp [hline]
    | add text =>
      have hnext : Application.advance { state with
            linesAdded := state.linesAdded + 1, output := state.output ++ [text] } lines =
          state.advance (.add text :: lines) := by
        simp [Application.advance, HunkLine.edit, HunkLine.added, HunkLine.removed, Nat.add_assoc]
      simp [applyLine, HunkLine.edit, ih, hnext]

/-! ## Hunks -/

/-- The state after a hunk. -/
def Application.step (state : Application) (sourceLines : List (List Char)) (hunk : Hunk) :
    Application :=
  ((state.copyTo sourceLines hunk.firstLine).advance hunk.lines).finish sourceLines hunk

theorem Hunk.Admitted.firstLine_eq {cursor firstLine : ℕ}
    (h : hunk.Admitted sourceLines hadTrailingNewline cursor firstLine) :
    hunk.firstLine = firstLine := by
  have hfirst := h.first
  unfold Hunk.firstLine? at hfirst
  unfold Hunk.firstLine
  split_ifs at hfirst ⊢ with hlen hstart
  · exact Option.some.inj hfirst
  · exact Option.some.inj hfirst

/-- A hunk applies when it is admitted and its old side stands where it starts. -/
theorem applyHunk_eq_ok :
    applyHunk sourceLines hadTrailingNewline hunkNumber state hunk = .ok state' ↔
      hunk.Admitted sourceLines hadTrailingNewline state.cursor hunk.firstLine ∧
        hunk.oldSide <+: sourceLines.drop hunk.firstLine ∧
        state' = state.step sourceLines hunk := by
  by_cases hadmitted : ∃ firstLine,
      hunk.Admitted sourceLines hadTrailingNewline state.cursor firstLine
  · obtain ⟨firstLine, hadmitted⟩ := hadmitted
    obtain rfl := hadmitted.firstLine_eq
    simp only [applyHunk_of_admitted hadmitted, Except.map_eq_ok, applyLines_eq_ok, hadmitted,
      true_and]
    constructor
    · rintro ⟨applied, ⟨hold, rfl⟩, rfl⟩
      exact ⟨hold, rfl⟩
    · rintro ⟨hold, rfl⟩
      exact ⟨_, ⟨hold, rfl⟩, rfl⟩
  · obtain ⟨e, he⟩ := applyHunk_of_not_admitted hunkNumber
      (not_exists.mp hadmitted)
    rw [he]
    constructor
    · intro h
      cases h
    · rintro ⟨h, -⟩
      exact absurd ⟨_, h⟩ hadmitted

/-- Every hunk is admitted where the one before it ends, and its old side is its old range. -/
def Fits (sourceLines : List (List Char)) (hadTrailingNewline : Bool) (cursor : ℕ) :
    List Hunk → Prop
  | [] => cursor ≤ sourceLines.length
  | hunk :: hunks =>
    hunk.Admitted sourceLines hadTrailingNewline cursor hunk.firstLine ∧
      hunk.oldSide = (sourceLines.drop hunk.firstLine).take hunk.oldLen ∧
      Fits sourceLines hadTrailingNewline (hunk.firstLine + hunk.oldLen) hunks

/-- The old side of every hunk has the announced length. -/
def Exact (hunks : List Hunk) : Prop := ∀ hunk ∈ hunks, hunk.oldSide.length = hunk.oldLen

instance (hunks : List Hunk) : Decidable (Exact hunks) := by
  unfold Exact
  infer_instance

theorem Exact.tail (h : Exact (hunk :: hunks)) : Exact hunks :=
  fun hunk' hmem => h hunk' (List.mem_cons_of_mem _ hmem)

theorem Application.step_cursor (hlen : hunk.oldSide.length = hunk.oldLen) :
    (state.step sourceLines hunk).cursor = hunk.firstLine + hunk.oldLen := by
  unfold step finish
  split_ifs <;> simp [advance, copyTo, ← hlen, Hunk.oldSide]

theorem prefix_drop_iff {l t : List (List Char)} {i n : ℕ} (hlen : t.length = n) :
    t <+: l.drop i ↔ t = (l.drop i).take n := by
  rw [List.prefix_iff_eq_take, hlen]

/-- Hunks with old sides of the announced lengths apply when they fit. -/
theorem applyHunks_eq_ok (hexact : Exact hunks) (hcursor : state.cursor ≤ sourceLines.length) :
    applyHunks sourceLines hadTrailingNewline hunkNumber state hunks = .ok state' ↔
      Fits sourceLines hadTrailingNewline state.cursor hunks ∧
        state' = hunks.foldl (fun s hunk => s.step sourceLines hunk) state := by
  induction hunks generalizing hunkNumber state with
  | nil => simp [applyHunks, Fits, hcursor, eq_comm]
  | cons hunk hunks ih =>
    have hlen := hexact hunk (List.mem_cons_self ..)
    have hnext : (state.step sourceLines hunk).cursor = hunk.firstLine + hunk.oldLen :=
      Application.step_cursor hlen
    rw [applyHunks, Except.bind_eq_ok, Fits, List.foldl_cons, ← prefix_drop_iff hlen, ← hnext]
    constructor
    · rintro ⟨next, happly, hrest⟩
      obtain ⟨hadmitted, hold, rfl⟩ := applyHunk_eq_ok.mp happly
      obtain ⟨hfits, hstate⟩ := (ih hexact.tail (hnext.trans_le hadmitted.range)).mp hrest
      exact ⟨⟨hadmitted, hold, hfits⟩, hstate⟩
    · rintro ⟨⟨hadmitted, hold, hfits⟩, hstate⟩
      exact ⟨_, applyHunk_eq_ok.mpr ⟨hadmitted, hold, rfl⟩,
        (ih hexact.tail (hnext.trans_le hadmitted.range)).mpr ⟨hfits, hstate⟩⟩

/-! ## The written lines -/

/-- The ranges of hunks that fit follow each other within the source. -/
theorem Fits.inOrder {cursor : ℕ} (h : Fits sourceLines hadTrailingNewline cursor hunks) :
    InOrder sourceLines cursor (hunks.map Hunk.replacement) := by
  induction hunks generalizing cursor with
  | nil => exact h
  | cons hunk hunks ih =>
    obtain ⟨hadmitted, -, htail⟩ := h
    exact ⟨hadmitted.order, hadmitted.range, ih htail⟩

theorem Application.step_output :
    (state.step sourceLines hunk).output = state.output ++
      (sourceLines.drop state.cursor).take (hunk.firstLine - state.cursor) ++ hunk.newSide := by
  unfold step finish
  split_ifs <;> simp [advance, copyTo, Hunk.newSide]

theorem Application.step_counts :
    (state.step sourceLines hunk).linesAdded =
        state.linesAdded + (hunk.lines.map HunkLine.added).sum ∧
      (state.step sourceLines hunk).linesRemoved =
        state.linesRemoved + (hunk.lines.map HunkLine.removed).sum := by
  unfold step finish
  split_ifs <;> exact ⟨rfl, rfl⟩

theorem Application.step_ends (hlen : hunk.oldSide.length = hunk.oldLen) :
    (state.step sourceLines hunk).outputEndsWithoutNewline =
      if hunk.firstLine + hunk.oldLen = sourceLines.length then hunk.newEndsWithoutNewline
      else state.outputEndsWithoutNewline := by
  have hcursor : ((state.copyTo sourceLines hunk.firstLine).advance hunk.lines).cursor =
      hunk.firstLine + hunk.oldLen := by
    simp [advance, copyTo, ← hlen, Hunk.oldSide]
  unfold step finish
  rw [hcursor]
  split_ifs <;> rfl

/-- The lines added and removed by hunks. -/
def linesAdded (hunks : List Hunk) : ℕ :=
  (hunks.map fun hunk => (hunk.lines.map HunkLine.added).sum).sum

def linesRemoved (hunks : List Hunk) : ℕ :=
  (hunks.map fun hunk => (hunk.lines.map HunkLine.removed).sum).sum

theorem foldl_step_counts :
    (hunks.foldl (fun s hunk => s.step sourceLines hunk) state).linesAdded =
        state.linesAdded + linesAdded hunks ∧
      (hunks.foldl (fun s hunk => s.step sourceLines hunk) state).linesRemoved =
        state.linesRemoved + linesRemoved hunks := by
  induction hunks generalizing state with
  | nil => exact ⟨rfl, rfl⟩
  | cons hunk hunks ih =>
    obtain ⟨hadded, hremoved⟩ := @ih (state.step sourceLines hunk)
    obtain ⟨hadded', hremoved'⟩ :=
      @Application.step_counts sourceLines state hunk
    simp only [List.foldl_cons, linesAdded, linesRemoved, List.map_cons, List.sum_cons] at *
    exact ⟨by omega, by omega⟩

/-- Where the cursor is, and what is written when the rest of the source is copied. -/
theorem foldl_step_output (hexact : Exact hunks) :
    (hunks.foldl (fun s hunk => s.step sourceLines hunk) state).cursor =
        stop state.cursor (hunks.map Hunk.replacement) ∧
      (hunks.foldl (fun s hunk => s.step sourceLines hunk) state).output ++
          sourceLines.drop (stop state.cursor (hunks.map Hunk.replacement)) =
        state.output ++ splice sourceLines state.cursor (hunks.map Hunk.replacement) := by
  induction hunks generalizing state with
  | nil => exact ⟨rfl, rfl⟩
  | cons hunk hunks ih =>
    have hcursor : (state.step sourceLines hunk).cursor = hunk.firstLine + hunk.oldLen :=
      Application.step_cursor (hexact hunk (List.mem_cons_self ..))
    obtain ⟨hstop, houtput⟩ := @ih (state.step sourceLines hunk) hexact.tail
    rw [hcursor] at hstop houtput
    refine ⟨hstop, ?_⟩
    simp only [List.foldl_cons, List.map_cons, stop, splice, Hunk.replacement] at houtput ⊢
    rw [houtput, Application.step_output]
    simp

/-- Whether the last line lacks its end is said by the last hunk, when that one reaches the end
of the source. -/
theorem foldl_step_ends (hexact : Exact hunks)
    (hfits : Fits sourceLines hadTrailingNewline state.cursor hunks) :
    (hunks.foldl (fun s hunk => s.step sourceLines hunk) state).outputEndsWithoutNewline =
      match hunks.getLast? with
      | none => state.outputEndsWithoutNewline
      | some last =>
        if last.firstLine + last.oldLen = sourceLines.length then last.newEndsWithoutNewline
        else state.outputEndsWithoutNewline := by
  induction hunks generalizing state with
  | nil => rfl
  | cons hunk hunks ih =>
    have hlen := hexact hunk (List.mem_cons_self ..)
    have hcursor : (state.step sourceLines hunk).cursor = hunk.firstLine + hunk.oldLen :=
      Application.step_cursor hlen
    obtain ⟨-, -, htail⟩ := hfits
    have hends := @ih (state.step sourceLines hunk) hexact.tail (by rwa [hcursor])
    rw [Application.step_ends hlen] at hends
    rw [List.foldl_cons, hends]
    cases hlast : hunks.getLast? with
    | none =>
      obtain rfl := List.getLast?_eq_none_iff.mp hlast
      rfl
    | some last =>
      have hlast' : (hunk :: hunks).getLast? = some last := by
        rw [List.getLast?_cons, hlast]
        rfl
      simp only [hlast']
      split_ifs with hend hfirst
      · rfl
      · -- a hunk that reaches the end leaves the later ones no other place
        have hstop : stop (hunk.firstLine + hunk.oldLen) (hunks.map Hunk.replacement) =
            last.firstLine + last.oldLen :=
          stop_eq_of_getLast? (r := last.replacement) (by rw [List.getLast?_map, hlast]; rfl)
        have hle := htail.inOrder.le_stop
        omega
      · rfl

/-! ## What the parser ensures -/

theorem suffix_of_hunkLine? {text : List Char} {line : HunkLine} (h : hunkLine? text = some line) :
    ∀ {l : List Char}, line.edit.new? = some l → l <:+ text := by
  intro l hl
  unfold hunkLine? at h
  split at h
  · cases h
    cases hl
    exact List.suffix_rfl
  · cases h
    cases hl
    exact List.suffix_cons _ _
  · cases h
    cases hl
  · cases h
    cases hl
    exact List.suffix_cons _ _
  · cases h

/-- The lines a hunk leaves have no line end in them, and there is one if the last is marked. -/
structure Hunk.Spelled (hunk : Hunk) : Prop where
  lines : ∀ l ∈ hunk.newSide, '\n' ∉ l
  marked : hunk.newEndsWithoutNewline = true → hunk.newSide ≠ []

theorem Hunk.newSide_extend (x : BodyLine) :
    (hunk.extend [x]).newSide = hunk.newSide ++ x.line.edit.new?.toList := by
  unfold Hunk.newSide Hunk.extend Splice.newSide
  simp only [List.map_append, List.map_cons, List.map_nil, List.filterMap_append]
  cases hnew : x.line.edit.new? <;> simp [hnew]

theorem Hunk.Spelled.extend {x : BodyLine} (h : hunk.Spelled) (hx : '\n' ∉ x.text) :
    (hunk.extend [x]).Spelled := by
  constructor
  · intro l hl
    rw [Hunk.newSide_extend, List.mem_append, Option.mem_toList] at hl
    rcases hl with hl | hl
    · exact h.lines l hl
    · exact fun hmem => hx ((suffix_of_hunkLine? x.reads hl).mem hmem)
  · intro hmarked
    rw [Hunk.newSide_extend, ne_eq, List.append_eq_nil_iff]
    rintro ⟨hnil, hnew⟩
    have hcount : x.line.newCount = 0 := by
      cases hline : x.line <;> simp_all [HunkLine.edit, Edit.new?, HunkLine.newCount]
    have hold : hunk.newEndsWithoutNewline = true := by
      simpa [Hunk.extend, BodyLine.marksNew, hcount] using hmarked
    exact h.marked hold hnil

/-- A property of hunks that every body line preserves holds of the hunk that is read. -/
theorem readHunk_invariant {P : Hunk → Prop} {Q : List Char → Prop} {headerLine : ℕ}
    (hP : ∀ hunk (x : BodyLine), Q x.text → P hunk → P (hunk.extend [x])) :
    ∀ {lines rest : List PatchLine} {hunk hunk' : Hunk} {seenOld seenNew : ℕ},
    readHunk headerLine hunk seenOld seenNew lines = .ok (hunk', rest) →
    (∀ line ∈ lines, Q line.1) → P hunk → P hunk' ∧ ∀ line ∈ rest, Q line.1 := by
  intro lines
  induction hn : lines.length using Nat.strong_induction_on generalizing lines with
  | _ n ih =>
    intro rest hunk hunk' seenOld seenNew h hQ hhunk
    subst hn
    rcases readHunk_cases h with ⟨-, rfl, rfl⟩ | ⟨-, body, line, lines', rfl, hline, hrest⟩
    · exact ⟨hhunk, hQ⟩
    · obtain ⟨hbody, hQ⟩ := List.forall_mem_cons.mp hQ
      have hreads := hunkLine?_of_parseHunkLine hline
      rcases hrest with ⟨marker, lines'', marked, rfl, hmarker, hmarked, hread⟩ | ⟨-, hread⟩
      · obtain ⟨-, hQ⟩ := List.forall_mem_cons.mp hQ
        refine ih lines''.length (by simp only [List.length_cons]; omega) rfl hread hQ ?_
        have hnext := hP hunk ⟨body.1, line, hreads, some marker.1,
          by simpa [isMarker] using hmarker⟩ hbody hhunk
        rw [Hunk.mark_concat, Except.ok.injEq] at hmarked
        subst hmarked
        simpa [Hunk.extend, BodyLine.marksOld, BodyLine.marksNew] using hnext
      · refine ih lines'.length (by simp) rfl hread hQ ?_
        have hnext := hP hunk ⟨body.1, line, hreads, none, by simp⟩ hbody hhunk
        simpa [Hunk.extend, BodyLine.marksOld, BodyLine.marksNew] using hnext

theorem spelled_of_parseHunks : ∀ {lines : List PatchLine} {hunks : List Hunk},
    parseHunks lines = .ok hunks → (∀ line ∈ lines, '\n' ∉ line.1) →
    ∀ hunk ∈ hunks, hunk.Spelled := by
  intro lines
  fun_induction parseHunks lines with
  | case1 =>
    rintro hunks ⟨⟩
    simp
  | case2 => rintro hunks ⟨⟩
  | case3 => rintro hunks ⟨⟩
  | case4 => rintro hunks ⟨⟩
  | case5 header index lines hfile oldStart oldLen newLen hheader hunk rest hread ih =>
    intro hunks h hlines
    obtain ⟨tail, htail, rfl⟩ := Except.map_eq_ok.mp h
    obtain ⟨hhunk, hrest⟩ := @readHunk_invariant Hunk.Spelled (fun text => '\n' ∉ text) _
      (fun _ _ hx h => h.extend hx) _ _ _ _ _ _ hread (List.forall_mem_cons.mp hlines).2
      ⟨by simp [Hunk.newSide], by simp⟩
    exact List.forall_mem_cons.mpr ⟨hhunk, ih htail hrest⟩

theorem spelled_of_parsePatch {patch : List Char} (h : parsePatch patch = .ok hunks) :
    hunks ≠ [] ∧ ∀ hunk ∈ hunks, hunk.Spelled := by
  obtain ⟨oldHeader, newHeader, lines, hlines, -, -, hhunks, hne⟩ := parsePatch_eq_ok.mp h
  refine ⟨hne, spelled_of_parseHunks hhunks fun line hline => ?_⟩
  have hmem : line.1 ∈ patchLines patch := by
    rw [← List.zipIdx_map_fst 0 (patchLines patch), hlines]
    exact List.mem_map_of_mem (List.mem_cons_of_mem _ (List.mem_cons_of_mem _ hline))
  exact not_mem_of_mem_splitOn hmem

/-! ## The result as a text -/

/-- The text that is written for the lines of the output. -/
def joinOutput (output : List (List Char)) (endsWithoutNewline : Bool) : List Char :=
  let joined := ['\n'].intercalate output
  if joined ≠ [] ∧ ¬endsWithoutNewline then joined ++ ['\n'] else joined

/-- One empty line is joined to the empty text, other lines to the text that has them. -/
theorem joinOutput_eq (output : List (List Char)) (u : Bool) :
    joinOutput output u = if output = [[]] then [] else unlines '\n' output u := by
  unfold joinOutput unlines
  by_cases hone : output = [[]]
  · simp [hone, List.intercalate]
  by_cases hnil : output = []
  · simp [hnil, List.intercalate]
  have hjoined : ['\n'].intercalate output ≠ [] := by
    simp [intercalate_eq_nil, hone, hnil]
  cases u <;> simp [hone, hnil, hjoined]

/-- The output is the lines of the text that is written for it, unless it is one empty line or
has an empty last line without an end. -/
theorem lines_joinOutput {output : List (List Char)} {u : Bool} (h : ∀ l ∈ output, '\n' ∉ l) :
    lines '\n' (joinOutput output u) = output ↔
      output ≠ [[]] ∧ (u = true → output.getLast? ≠ some []) := by
  rw [joinOutput_eq]
  split_ifs with hone
  · simp [hone, lines]
  · rw [lines_unlines_iff h]
    exact (and_iff_right hone).symm

/-- The lines of a text are written as the text, unless it is one empty line, when its end is
known. -/
theorem joinOutput_lines {t : List Char} {u : Bool} : joinOutput (lines '\n' t) u = t ↔
    t ≠ ['\n'] ∧ (t ≠ [] → (u = true ↔ Unterminated '\n' t)) := by
  have hone : lines '\n' t = [[]] ↔ t = ['\n'] := by
    constructor
    · intro h
      have hterminated : ¬Unterminated '\n' t := fun hun =>
        getLast?_lines_of_unterminated hun (by rw [h]; rfl)
      have hjoin := @unlines_lines _ _ '\n' t
      rw [h, decide_eq_false hterminated] at hjoin
      exact hjoin.symm
    · rintro rfl
      decide
  rw [joinOutput_eq]
  by_cases ht : t = ['\n']
  · rw [if_pos (hone.mpr ht)]
    simp [ht]
  rw [if_neg fun h => ht (hone.mp h)]
  by_cases hnil : t = []
  · simp [hnil, lines, unlines]
  have hjoin := @unlines_lines _ _ '\n' t
  have hlines : lines '\n' t ≠ [] := fun h => hnil (lines_eq_nil.mp h)
  have hinj := @unlines_inj _ _ '\n' (lines '\n' t) u (decide (Unterminated '\n' t)) hlines
  rw [hjoin] at hinj
  rw [hinj, Bool.eq_iff_iff, decide_eq_true_eq]
  simp [ht, hnil]

/-- The loop starts before the first line, with the end of the source. -/
def Application.start (source : List Char) : Application :=
  ⟨[], lines '\n' source = [] ∨ ¬source.getLast? = some '\n', 0, 0, 0⟩

/-- What is returned for the state after the last hunk. -/
def Application.outcome (state : Application) (source : List Char) (hunks : List Hunk) :
    NotePatchOutcome where
  source := joinOutput (state.output ++ (lines '\n' source).drop state.cursor)
    state.outputEndsWithoutNewline
  hunksApplied := hunks.length
  linesAdded := state.linesAdded
  linesRemoved := state.linesRemoved

/-- An application succeeds when the patch is within the limits and its hunks apply. -/
theorem applyNotePatch_eq_ok {source patch : List Char} {outcome : NotePatchOutcome} :
    applyNotePatch source patch = .ok outcome ↔
      utf8Len patch ≤ notePolicy.maxPatchBytes ∧ ∃ hunks, parsePatch patch = .ok hunks ∧
        hunks.length ≤ notePolicy.maxPatchHunks ∧ ∃ state,
          applyHunks (lines '\n' source) (source.getLast? = some '\n') 1
            (.start source) hunks = .ok state ∧ outcome = state.outcome source hunks := by
  unfold applyNotePatch
  by_cases hsize : notePolicy.maxPatchBytes < utf8Len patch
  · rw [if_pos hsize]
    refine iff_of_false (fun h => ?_) (by omega)
    cases h
  simp only [if_neg hsize, Except.bind_eq_ok, not_lt.mp hsize, true_and]
  refine exists_congr fun hunks => and_congr_right fun _ => ?_
  by_cases hmany : notePolicy.maxPatchHunks < hunks.length
  · rw [if_pos hmany]
    refine iff_of_false (fun h => ?_) (by omega)
    cases h
  simp only [if_neg hmany, not_lt.mp hmany, true_and]
  rw [Except.bind_eq_ok]
  refine exists_congr fun state => ?_
  have hstart : (⟨[], lines '\n' source = [] ∨
      ¬(decide (source.getLast? = some '\n')) = true, 0, 0, 0⟩ : Application) =
      .start source := by
    simp [Application.start]
  rw [hstart]
  refine and_congr_right fun hstate => ?_
  have hcursor := applyHunks_cursor (Nat.zero_le _) hstate
  have hslice : sliceLines (lines '\n' source) state.cursor (lines '\n' source).length =
      .ok ((lines '\n' source).drop state.cursor) := by
    unfold sliceLines
    rw [if_pos ⟨hcursor, le_refl _⟩, List.take_of_length_le (by simp)]
  simp only [hslice, bind, Except.bind, pure, Except.pure, Except.ok.injEq]
  exact eq_comm

/-- The lines of the source with the ranges of the hunks replaced. -/
def wantedLines (source : List Char) (hunks : List Hunk) : List (List Char) :=
  splice (lines '\n' source) 0 (hunks.map Hunk.replacement)

/-- The old range of the hunk ends where the source does. -/
def Hunk.ReachesEnd (hunk : Hunk) (source : List Char) : Prop :=
  hunk.firstLine + hunk.oldLen = (TextLines.lines '\n' source).length

instance (hunk : Hunk) (source : List Char) : Decidable (hunk.ReachesEnd source) := by
  unfold Hunk.ReachesEnd
  infer_instance

/-- Whether the last written line lacks its end. -/
def endsWithoutNewline (source : List Char) (hunks : List Hunk) : Bool :=
  match hunks.getLast? with
  | none => (Application.start source).outputEndsWithoutNewline
  | some last =>
    if last.ReachesEnd source then last.newEndsWithoutNewline
    else (Application.start source).outputEndsWithoutNewline

/-- A patch whose old sides have the announced lengths applies when it fits, and replaces the
ranges of its hunks. -/
theorem applyNotePatch_of_exact {source patch : List Char} {outcome : NotePatchOutcome}
    (hparse : parsePatch patch = .ok hunks) (hexact : Exact hunks) :
    applyNotePatch source patch = .ok outcome ↔
      (utf8Len patch ≤ notePolicy.maxPatchBytes ∧ hunks.length ≤ notePolicy.maxPatchHunks ∧
        Fits (lines '\n' source) (source.getLast? = some '\n') 0 hunks) ∧
      outcome = ⟨joinOutput (wantedLines source hunks) (endsWithoutNewline source hunks),
        hunks.length, linesAdded hunks, linesRemoved hunks⟩ := by
  have hresult : Fits (lines '\n' source) (source.getLast? = some '\n') 0 hunks →
      (hunks.foldl (fun s hunk => s.step (lines '\n' source) hunk)
        (Application.start source)).outcome source hunks =
      ⟨joinOutput (wantedLines source hunks) (endsWithoutNewline source hunks),
        hunks.length, linesAdded hunks, linesRemoved hunks⟩ := by
    intro hfits
    obtain ⟨hcursor, houtput⟩ := @foldl_step_output (lines '\n' source) (.start source) hunks hexact
    obtain ⟨hadded, hremoved⟩ := @foldl_step_counts (lines '\n' source) (.start source) hunks
    have hends := @foldl_step_ends (lines '\n' source) _ (.start source) hunks hexact hfits
    unfold Application.outcome
    rw [hcursor, houtput, hadded, hremoved, hends]
    simp only [Application.start, List.nil_append, Nat.zero_add]
    rfl
  rw [applyNotePatch_eq_ok, and_assoc]
  refine and_congr_right fun _ => ?_
  have happly : ∀ state, applyHunks (lines '\n' source) (source.getLast? = some '\n') 1
      (.start source) hunks = .ok state ↔ _ := fun state =>
    @applyHunks_eq_ok _ _ 1 (.start source) state hunks hexact (Nat.zero_le _)
  simp only [hparse, Except.ok.injEq, exists_eq_left', happly]
  rw [and_assoc]
  refine and_congr_right fun _ => ?_
  constructor
  · rintro ⟨state, ⟨hfits, rfl⟩, rfl⟩
    exact ⟨hfits, hresult hfits⟩
  · rintro ⟨hfits, rfl⟩
    exact ⟨_, ⟨hfits, rfl⟩, (hresult hfits).symm⟩

/-! ## The frame -/

section Frame

variable {source patch : List Char} {last : Hunk} {outcome : NotePatchOutcome}

theorem Fits.oldSides {cursor : ℕ} (h : Fits sourceLines hadTrailingNewline cursor hunks) :
    ∀ hunk ∈ hunks, hunk.oldSide = (sourceLines.drop hunk.firstLine).take hunk.oldLen := by
  induction hunks generalizing cursor with
  | nil => simp
  | cons hunk hunks ih =>
    obtain ⟨-, hold, htail⟩ := h
    exact List.forall_mem_cons.mpr ⟨hold, ih htail⟩

/-- The old marker stands in the hunks that replace the unterminated last line of a source. -/
theorem Fits.oldEnds_iff {cursor : ℕ}
    (h : Fits (lines '\n' source) (source.getLast? = some '\n') cursor hunks) :
    ∀ hunk ∈ hunks, (hunk.oldEndsWithoutNewline = true ↔
      hunk.ReachesEnd source ∧ 0 < hunk.oldLen ∧ Unterminated '\n' source) := by
  induction hunks generalizing cursor with
  | nil => simp
  | cons hunk hunks ih =>
    obtain ⟨hadmitted, -, htail⟩ := h
    refine List.forall_mem_cons.mpr ⟨?_, ih htail⟩
    rw [hadmitted.marked, decide_eq_false_iff_not, and_assoc]
    refine and_congr_right fun hend => and_congr_right fun hpos => ?_
    have hne : source ≠ [] := by
      rw [ne_eq, ← @lines_eq_nil _ _ '\n', ← List.length_eq_zero_iff]
      omega
    exact (and_iff_right hne).symm

theorem start_endsWithoutNewline : (Application.start source).outputEndsWithoutNewline = true ↔
    source = [] ∨ Unterminated '\n' source := by
  unfold Application.start Unterminated
  rw [decide_eq_true_eq, lines_eq_nil]
  tauto

theorem wantedLines_of_reachesEnd (hlast : hunks.getLast? = some last)
    (hend : last.ReachesEnd source) :
    ∃ front, wantedLines source hunks = front ++ last.newSide := by
  obtain ⟨front, hfront⟩ := @splice_eq_append _ 0 (hunks.map Hunk.replacement) last.replacement
    (lines '\n' source) (by rw [List.getLast?_map, hlast]; rfl)
  have hdrop : (lines '\n' source).drop (last.replacement.first + last.replacement.len) = [] :=
    List.drop_eq_nil_of_le (le_of_eq (Eq.symm hend))
  rw [hdrop, List.append_nil] at hfront
  exact ⟨front, hfront⟩

/-- Before a last hunk that does not reach the end, the last line of the source stays. -/
theorem getLast?_wantedLines
    (hfits : Fits (lines '\n' source) (source.getLast? = some '\n') 0 hunks)
    (hlast : hunks.getLast? = some last) (hend : ¬last.ReachesEnd source) :
    source ≠ [] ∧ wantedLines source hunks ≠ [] ∧
      (wantedLines source hunks).getLast? = (lines '\n' source).getLast? := by
  have hreplacement : (hunks.map Hunk.replacement).getLast? = some last.replacement := by
    rw [List.getLast?_map, hlast]
    rfl
  have hle := hfits.inOrder.within _ (List.mem_of_getLast? hreplacement)
  have hlt : last.firstLine + last.oldLen < (lines '\n' source).length :=
    lt_of_le_of_ne hle hend
  obtain ⟨front, hfront⟩ :=
    @splice_eq_append _ 0 (hunks.map Hunk.replacement) _ (lines '\n' source) hreplacement
  have hdrop : (lines '\n' source).drop (last.firstLine + last.oldLen) ≠ [] := by
    rw [ne_eq, List.drop_eq_nil_iff]
    omega
  have hgetLast : (wantedLines source hunks).getLast? = (lines '\n' source).getLast? := by
    rw [wantedLines, hfront, List.getLast?_append]
    have heq := @List.getLast?_append _ ((lines '\n' source).take (last.firstLine + last.oldLen))
      ((lines '\n' source).drop (last.firstLine + last.oldLen))
    rw [List.take_append_drop] at heq
    rw [heq]
    show (List.getLast? (List.drop (last.firstLine + last.oldLen) _)).or _ = _
    cases hcases : ((lines '\n' source).drop (last.firstLine + last.oldLen)).getLast? with
    | none => exact absurd (List.getLast?_eq_none_iff.mp hcases) hdrop
    | some l => rfl
  have hsource : lines '\n' source ≠ [] := by
    intro hnil
    rw [hnil] at hlt
    exact absurd hlt (Nat.not_lt_zero _)
  refine ⟨fun h => hsource (lines_eq_nil.mpr h), fun h => ?_, hgetLast⟩
  rw [h] at hgetLast
  exact hsource (List.getLast?_eq_none_iff.mp hgetLast.symm)

/-- Which last line the join loses. -/
theorem ends_iff_of_spelled
    (hfits : Fits (lines '\n' source) (source.getLast? = some '\n') 0 hunks)
    (hlast : hunks.getLast? = some last) (hspelled : last.Spelled) :
    (endsWithoutNewline source hunks = true → (wantedLines source hunks).getLast? ≠ some []) ↔
      (last.ReachesEnd source → last.newEndsWithoutNewline = true →
        last.newSide.getLast? ≠ some []) := by
  unfold endsWithoutNewline
  simp only [hlast]
  by_cases hend : last.ReachesEnd source
  · obtain ⟨front, hfront⟩ := wantedLines_of_reachesEnd hlast hend
    rw [if_pos hend, hfront]
    simp only [hend, true_imp_iff]
    refine imp_congr_right fun hmarked => ?_
    have hne := hspelled.marked hmarked
    rw [List.getLast?_append]
    cases hnew : last.newSide.getLast? with
    | none => exact absurd (List.getLast?_eq_none_iff.mp hnew) hne
    | some l => simp
  · obtain ⟨hsource, -, hgetLast⟩ := getLast?_wantedLines hfits hlast hend
    rw [if_neg hend, hgetLast]
    refine iff_of_true (fun hstart => ?_) (fun h => absurd h hend)
    exact getLast?_lines_of_unterminated
      ((start_endsWithoutNewline.mp hstart).resolve_left hsource)

/-- Which results are unterminated. -/
theorem unterminated_iff_of_spelled
    (hfits : Fits (lines '\n' source) (source.getLast? = some '\n') 0 hunks)
    (hlast : hunks.getLast? = some last) (hspelled : last.Spelled) :
    (wantedLines source hunks ≠ [] ∧ endsWithoutNewline source hunks = true) ↔
      if last.ReachesEnd source then last.newEndsWithoutNewline = true
      else Unterminated '\n' source := by
  unfold endsWithoutNewline
  simp only [hlast]
  by_cases hend : last.ReachesEnd source
  · obtain ⟨front, hfront⟩ := wantedLines_of_reachesEnd hlast hend
    rw [if_pos hend, if_pos hend, hfront]
    refine and_iff_right_of_imp fun hmarked => ?_
    have hne := hspelled.marked hmarked
    simp [hne]
  · obtain ⟨hsource, hne, -⟩ := getLast?_wantedLines hfits hlast hend
    rw [if_neg hend, if_neg hend, start_endsWithoutNewline]
    simp [hsource, hne]

/-- What an accepted patch is to do : the old ranges are the hunks' old sides and are replaced by
their new sides, the last line is terminated as before unless a hunk that reaches the end marks
its sides differently, and the counts are those of the hunks. -/
structure PatchFrame (source : List Char) (hunks : List Hunk) (outcome : NotePatchOutcome) :
    Prop where
  inOrder : InOrder (lines '\n' source) 0 (hunks.map Hunk.replacement)
  oldSides : ∀ hunk ∈ hunks,
    hunk.oldSide = ((lines '\n' source).drop hunk.firstLine).take hunk.oldLen
  result : lines '\n' outcome.source = wantedLines source hunks
  finalNewline : (Unterminated '\n' outcome.source ↔ Unterminated '\n' source) ∨
    ∃ hunk ∈ hunks, hunk.ReachesEnd source ∧
      (hunk.oldEndsWithoutNewline = true ↔ Unterminated '\n' source) ∧
      (hunk.newEndsWithoutNewline = true ↔ Unterminated '\n' outcome.source)
  hunksApplied : outcome.hunksApplied = hunks.length
  added : outcome.linesAdded = linesAdded hunks
  removed : outcome.linesRemoved = linesRemoved hunks

/-- The patches that do so. No hunk has more old lines than it announces. The new lines are not
one empty line, and a last hunk that reaches the end does not leave an empty line without an end
there. When it leaves a terminated line where the source had an unterminated one, then some hunk
marks only the old side. -/
structure PatchSound (source : List Char) (hunks : List Hunk) : Prop where
  exact : Exact hunks
  nonempty : wantedLines source hunks ≠ [[]]
  lastLine : ∀ last ∈ hunks.getLast?, last.ReachesEnd source →
    last.newEndsWithoutNewline = true → last.newSide.getLast? ≠ some []
  terminates : ∀ last ∈ hunks.getLast?, last.ReachesEnd source →
    last.newEndsWithoutNewline = false → Unterminated '\n' source →
      ∃ hunk ∈ hunks, hunk.oldEndsWithoutNewline = true ∧ hunk.newEndsWithoutNewline = false

theorem PatchFrame.exact (h : PatchFrame source hunks outcome) : Exact hunks := by
  intro hunk hmem
  have hwithin := h.inOrder.within _ (List.mem_map_of_mem (f := Hunk.replacement) hmem)
  have hle : hunk.firstLine + hunk.oldLen ≤ (lines '\n' source).length := hwithin
  rw [h.oldSides hunk hmem, List.length_take, List.length_drop]
  omega

theorem wantedLines_not_mem (hspelled : ∀ hunk ∈ hunks, hunk.Spelled) :
    ∀ l ∈ wantedLines source hunks, '\n' ∉ l := by
  intro l hl
  rcases mem_of_mem_splice hl with hl | ⟨r, hr, hl⟩
  · exact not_mem_of_mem_lines hl
  · obtain ⟨hunk, hhunk, rfl⟩ := List.mem_map.mp hr
    exact (hspelled hunk hhunk).lines l hl

/-- An accepted patch does what it is to do exactly when it is one of those patches. -/
theorem patch_frame_iff (source patch : List Char) (hunks : List Hunk) (outcome : NotePatchOutcome)
    (hparse : parsePatch patch = .ok hunks) (h : applyNotePatch source patch = .ok outcome) :
    PatchFrame source hunks outcome ↔ PatchSound source hunks := by
  by_cases hexact : Exact hunks
  swap
  · exact iff_of_false (fun hframe => hexact hframe.exact) fun hsound => hexact hsound.exact
  obtain ⟨hne, hspelled⟩ := spelled_of_parsePatch hparse
  obtain ⟨⟨-, -, hfits⟩, rfl⟩ := (applyNotePatch_of_exact hparse hexact).mp h
  obtain ⟨last, hlast⟩ : ∃ last, hunks.getLast? = some last :=
    Option.ne_none_iff_exists'.mp fun hnone => hne (List.getLast?_eq_none_iff.mp hnone)
  have hlastSpelled := hspelled last (List.mem_of_getLast? hlast)
  have hnl := @wantedLines_not_mem hunks source hspelled
  have hends := ends_iff_of_spelled hfits hlast hlastSpelled
  have hunterminated := unterminated_iff_of_spelled hfits hlast hlastSpelled
  -- what the join keeps decides the lines of the result
  have hresult : lines '\n' (joinOutput (wantedLines source hunks)
      (endsWithoutNewline source hunks)) = wantedLines source hunks ↔
      wantedLines source hunks ≠ [[]] ∧ (last.ReachesEnd source →
        last.newEndsWithoutNewline = true → last.newSide.getLast? ≠ some []) := by
    rw [lines_joinOutput hnl, hends]
  -- and then the end of the result is what the last hunk says
  have hend : wantedLines source hunks ≠ [[]] → (endsWithoutNewline source hunks = true →
      (wantedLines source hunks).getLast? ≠ some []) →
      (Unterminated '\n' (joinOutput (wantedLines source hunks)
        (endsWithoutNewline source hunks)) ↔
      if last.ReachesEnd source then last.newEndsWithoutNewline = true
      else Unterminated '\n' source) := by
    intro hone hlines
    rw [joinOutput_eq, if_neg hone, unterminated_unlines hnl hlines, hunterminated]
  constructor
  · intro hframe
    obtain ⟨hone, hlines⟩ := hresult.mp hframe.result
    refine ⟨hexact, hone, ?_, ?_⟩
    · intro last' hlast'
      obtain rfl := Option.some.inj (hlast.symm.trans hlast')
      exact hlines
    · intro last' hlast' hreaches hnew hsource
      obtain rfl := Option.some.inj (hlast.symm.trans hlast')
      have hout := hend hone (hends.mpr hlines)
      rw [if_pos hreaches, hnew] at hout
      rcases hframe.finalNewline with hsame | ⟨hunk, hmem, -, hold, hnew'⟩
      · exact absurd (hout.mp (hsame.mpr hsource)) (by simp)
      · refine ⟨hunk, hmem, hold.mpr hsource, ?_⟩
        rw [Bool.eq_false_iff, ne_eq, hnew', hout]
        simp
  · rintro ⟨-, hone, hlines, hterminates⟩
    have hlines' := hlines last hlast
    have hout := hend hone (hends.mpr hlines')
    refine ⟨hfits.inOrder, hfits.oldSides, hresult.mpr ⟨hone, hlines'⟩, ?_, rfl, rfl, rfl⟩
    dsimp only
    rw [hout]
    by_cases hreaches : last.ReachesEnd source
    · rw [if_pos hreaches]
      by_cases hsource : Unterminated '\n' source
      · by_cases hnew : last.newEndsWithoutNewline = true
        · exact Or.inl (iff_of_true hnew hsource)
        · have hfalse := Bool.eq_false_iff.mpr hnew
          obtain ⟨hunk, hmem, hold, hnew'⟩ := hterminates last hlast hreaches hfalse hsource
          have hat := ((hfits.oldEnds_iff hunk hmem).mp hold).1
          exact Or.inr ⟨hunk, hmem, hat, iff_of_true hold hsource, by simp [hnew', hfalse]⟩
      · refine Or.inr ⟨last, List.mem_of_getLast? hlast, hreaches, ?_, Iff.rfl⟩
        rw [hfits.oldEnds_iff last (List.mem_of_getLast? hlast)]
        exact iff_of_false (fun h => hsource h.2.2) hsource
    · rw [if_neg hreaches]
      exact Or.inl Iff.rfl

/-- A hunk that leaves one empty line for the only line of the source. -/
def emptyLinePatch : List Char :=
  "--- a/note.adoc\n+++ b/note.adoc\n@@ -1,1 +1,1 @@\n-a\n+\n".toList

/-- It is accepted, and the line is lost. -/
theorem emptyLinePatch_not_frame : ∃ hunks outcome, parsePatch emptyLinePatch = .ok hunks ∧
    applyNotePatch "a\n".toList emptyLinePatch = .ok outcome ∧ outcome.source = [] ∧
      ¬PatchFrame "a\n".toList hunks outcome := by
  have hparse : parsePatch emptyLinePatch =
      .ok [⟨1, 1, 1, [.remove ['a'], .add []], false, false⟩] := by decide +kernel
  have happly : applyNotePatch "a\n".toList emptyLinePatch = .ok ⟨[], 1, 1, 1⟩ := by
    decide +kernel
  refine ⟨_, _, hparse, happly, rfl, fun hframe => ?_⟩
  have hwanted : wantedLines "a\n".toList [⟨1, 1, 1, [.remove ['a'], .add []], false, false⟩] =
      [[]] := by decide +kernel
  have hresult := hframe.result
  rw [hwanted] at hresult
  exact absurd hresult (by decide)

/-- A hunk that replaces the first of two lines. -/
def firstLinePatch : List Char :=
  "--- a/note.adoc\n+++ b/note.adoc\n@@ -1,2 +1,2 @@\n-a\n+c\n b\n".toList

theorem firstLinePatch_frame : ∃ hunks outcome, parsePatch firstLinePatch = .ok hunks ∧
    applyNotePatch "a\nb\n".toList firstLinePatch = .ok outcome ∧
      PatchFrame "a\nb\n".toList hunks outcome := by
  have hparse : parsePatch firstLinePatch =
      .ok [⟨1, 2, 2, [.remove ['a'], .add ['c'], .context ['b']], false, false⟩] := by
    decide +kernel
  have happly : applyNotePatch "a\nb\n".toList firstLinePatch =
      .ok ⟨"c\nb\n".toList, 1, 1, 1⟩ := by decide +kernel
  refine ⟨_, _, hparse, happly, (patch_frame_iff _ _ _ _ hparse happly).mpr ⟨?_, ?_, ?_, ?_⟩⟩
  · decide
  · decide +kernel
  · rintro last ⟨⟩ - hnew
    cases hnew
  · rintro last ⟨⟩ - - hsource
    exact absurd hsource (by decide)

end Frame

end Marginalis
