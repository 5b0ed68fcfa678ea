import Mathlib.Data.List.Basic
import Marginalis.CommonSublist
import Marginalis.JsText

/-!
# Three versions side by side

When a note changed while it was edited, the editor shows the text the editing started from, the
edited text and the current one in three columns. Both later versions are aligned with the first,
line by line : by a longest common subsequence, or by position when the product of the numbers of
lines is above a limit. `alignThreeVersions_reads` says that each column holds the lines of its
version and nothing else, whichever way either side was aligned.
-/

set_option linter.unusedSectionVars false

namespace Marginalis

namespace EditorConflict

variable {α : Type}

/-- The lines of a version put next to those of the baseline : the lines before each place of the
baseline and behind its end, and the line that stands at each place. -/
structure AlignedLines (α : Type) where
  insertions : List (List α)
  matched : List (Option α)

namespace AlignedLines

/-- A place for each line of the baseline, and nothing aligned yet. -/
def empty (baseline : List α) : AlignedLines α where
  insertions := List.replicate (baseline.length + 1) []
  matched := List.replicate baseline.length none

def push (aligned : AlignedLines α) (index : ℕ) (line : α) : AlignedLines α :=
  { aligned with insertions := aligned.insertions.modify index (· ++ [line]) }

def setMatch (aligned : AlignedLines α) (index : ℕ) (line : α) : AlignedLines α :=
  { aligned with matched := aligned.matched.set index (some line) }

/-- What the rows read : an index outside gives no lines. -/
def insertionsAt (aligned : AlignedLines α) (index : ℕ) : List α :=
  aligned.insertions.getD index []

def matchAt (aligned : AlignedLines α) (index : ℕ) : Option α :=
  aligned.matched.getD index none

/-- What a column of the rows shows at a place. -/
def cells (aligned : AlignedLines α) (index : ℕ) : List α :=
  aligned.insertionsAt index ++ (aligned.matchAt index).toList

variable {aligned : AlignedLines α} {index i : ℕ} {line : α}

@[simp] theorem matchAt_push : (aligned.push index line).matchAt i = aligned.matchAt i := rfl

@[simp] theorem length_matched_push : (aligned.push index line).matched.length =
    aligned.matched.length := rfl

@[simp] theorem length_insertions_push : (aligned.push index line).insertions.length =
    aligned.insertions.length := by
  simp [push]

theorem insertionsAt_push (h : index < aligned.insertions.length) (line : α) (i : ℕ) :
    (aligned.push index line).insertionsAt i =
      if i = index then aligned.insertionsAt i ++ [line] else aligned.insertionsAt i := by
  simp only [insertionsAt, push, List.getD_eq_getElem?_getD, List.getElem?_modify]
  by_cases hi : i = index
  · subst hi
    simp [List.getElem?_eq_getElem h]
  · simp [hi, Ne.symm hi]

theorem foldl_push (h : index < aligned.insertions.length) (lines : List α) :
    (∀ i, (lines.foldl (fun aligned line => aligned.push index line) aligned).insertionsAt i =
      if i = index then aligned.insertionsAt i ++ lines else aligned.insertionsAt i) ∧
    ∀ i, (lines.foldl (fun aligned line => aligned.push index line) aligned).matchAt i =
      aligned.matchAt i := by
  induction lines generalizing aligned with
  | nil =>
    simp
  | cons line lines ih =>
    have hlt : index < (aligned.push index line).insertions.length := by simpa using h
    obtain ⟨hins, hmatch⟩ := ih hlt
    refine ⟨fun i => ?_, hmatch⟩
    rw [List.foldl_cons, hins, insertionsAt_push h]
    by_cases hi : i = index
    · simp [hi]
    · simp [hi]

@[simp] theorem insertionsAt_setMatch :
    (aligned.setMatch index line).insertionsAt i = aligned.insertionsAt i := rfl

@[simp] theorem length_insertions_setMatch : (aligned.setMatch index line).insertions.length =
    aligned.insertions.length := rfl

@[simp] theorem length_matched_setMatch : (aligned.setMatch index line).matched.length =
    aligned.matched.length := by
  simp [setMatch]

theorem matchAt_setMatch (h : index < aligned.matched.length) (line : α) (i : ℕ) :
    (aligned.setMatch index line).matchAt i =
      if i = index then some line else aligned.matchAt i := by
  simp only [matchAt, setMatch, List.getD_eq_getElem?_getD, List.getElem?_set]
  by_cases hi : i = index
  · subst hi
    simp [h]
  · simp [hi, Ne.symm hi]

@[simp] theorem insertionsAt_empty (baseline : List α) : (empty baseline).insertionsAt i = [] := by
  simp only [insertionsAt, empty, List.getD_eq_getElem?_getD, List.getElem?_replicate]
  split_ifs <;> rfl

@[simp] theorem matchAt_empty (baseline : List α) : (empty baseline).matchAt i = none := by
  simp only [matchAt, empty, List.getD_eq_getElem?_getD, List.getElem?_replicate]
  split_ifs <;> rfl

end AlignedLines

/-! ## The two alignments -/

variable [DecidableEq α]

/-- The loop by position puts a line without a match before its place. -/
def pushUnmatched (baseline : List α) (matched : List (Option α)) (aligned : AlignedLines α)
    (entry : α × ℕ) : AlignedLines α :=
  if matched[entry.2]? = some none ∨ baseline.length ≤ entry.2 then
    aligned.push (min entry.2 baseline.length) entry.1
  else
    aligned

/-- By position : a line matches when the baseline has it at the same place. -/
def alignLargeDocument (baseline variant : List α) : AlignedLines α :=
  let matched := baseline.mapIdx fun index line =>
    if variant[index]? = some line then some line else none
  variant.zipIdx.foldl (pushUnmatched baseline matched)
    { insertions := List.replicate (baseline.length + 1) [], matched := matched }

/-- The loop over both versions, with the table of the lengths for their suffixes. -/
def alignFrom (baseline variant : List α) (lengths : List (List ℕ)) (left right : ℕ)
    (aligned : AlignedLines α) : AlignedLines α :=
  if h : left < baseline.length ∧ right < variant.length then
    if baseline[left] = variant[right] then
      alignFrom baseline variant lengths (left + 1) (right + 1)
        (aligned.setMatch left variant[right])
    else if (lengths.getD (left + 1) []).getD right 0 ≤
        (lengths.getD left []).getD (right + 1) 0 then
      alignFrom baseline variant lengths left (right + 1) (aligned.push left variant[right])
    else
      alignFrom baseline variant lengths (left + 1) right aligned
  else
    (variant.drop right).foldl (fun aligned line => aligned.push baseline.length line) aligned
termination_by (baseline.length - left) + (variant.length - right)

def alignToBaseline (baseline variant : List α) : AlignedLines α :=
  if 250000 < baseline.length * variant.length then
    alignLargeDocument baseline variant
  else
    alignFrom baseline variant (CommonSublist.lcsTable baseline variant) 0 0
      (AlignedLines.empty baseline)

/-! ## The rows -/

structure ConflictLine (α : Type) where
  line : String
  status : String
  changed : Bool
  editingStarted : Option α
  editing : Option α
  current : Option α

/-- A row for lines that come before a place of the baseline. -/
def insertionRow (editingLine currentLine : Option α) : ConflictLine α where
  line := "追加"
  status :=
    if editingLine ≠ none ∧ currentLine ≠ none then "編集中と現在の内容に追加"
    else if editingLine ≠ none then "編集中に追加"
    else "現在の内容に追加"
  changed := true
  editingStarted := none
  editing := editingLine
  current := currentLine

/-- The versions that lack a line of the baseline. -/
def deletions (editingLine currentLine : Option α) : List String :=
  [if editingLine = none then "編集中から削除" else "",
    if currentLine = none then "現在の内容から削除" else ""].filter (· ≠ "")

/-- The row of a line of the baseline. -/
def baselineRow (baselineIndex : ℕ) (line : α) (editingLine currentLine : Option α) :
    ConflictLine α where
  line := toString (baselineIndex + 1)
  status :=
    if 0 < (deletions editingLine currentLine).length then
      "、".intercalate (deletions editingLine currentLine)
    else "変更なし"
  changed := decide (0 < (deletions editingLine currentLine).length)
  editingStarted := some line
  editing := editingLine
  current := currentLine

/-- The rows of one place : the lines before it, then its own. -/
def rowsAt (baseline : List α) (editing current : AlignedLines α) (baselineIndex : ℕ) :
    List (ConflictLine α) :=
  let editingInsertions := editing.insertionsAt baselineIndex
  let currentInsertions := current.insertionsAt baselineIndex
  let insertionCount := max editingInsertions.length currentInsertions.length
  (List.range insertionCount).map (fun insertionIndex =>
      insertionRow editingInsertions[insertionIndex]? currentInsertions[insertionIndex]?) ++
    (baseline[baselineIndex]?.map fun line =>
      baselineRow baselineIndex line (editing.matchAt baselineIndex)
        (current.matchAt baselineIndex)).toList

/-- The rows for versions given as their lines. -/
def alignLines (baseline editing current : List α) : List (ConflictLine α) :=
  let editingAligned := alignToBaseline baseline editing
  let currentAligned := alignToBaseline baseline current
  (List.range (baseline.length + 1)).flatMap (rowsAt baseline editingAligned currentAligned)

/-- `value.split(/\r\n|\r|\n/)`. -/
def splitLines : JsString → List JsString
  | [] => [[]]
  | [unit] => if unit = 13 ∨ unit = 10 then [[], []] else [[unit]]
  | unit :: next :: rest =>
    if unit = 13 ∧ next = 10 then [] :: splitLines rest
    else if unit = 13 ∨ unit = 10 then [] :: splitLines (next :: rest)
    else (splitLines (next :: rest)).modifyHead (unit :: ·)

def alignThreeVersions (editingStarted editing current : JsString) :
    List (ConflictLine JsString) :=
  alignLines (splitLines editingStarted) (splitLines editing) (splitLines current)

/-! ## What an alignment must keep -/

/-- An alignment of a variant : the places of the baseline, read in order, give its lines, and a
line that stands at a place is the one of the baseline. -/
structure Aligns (baseline variant : List α) (aligned : AlignedLines α) : Prop where
  matchAt_eq : ∀ i line, aligned.matchAt i = some line → baseline[i]? = some line
  reading : (List.range (baseline.length + 1)).flatMap aligned.cells = variant

theorem flatMap_range_getElem? (l : List α) (n : ℕ) :
    ((List.range n).flatMap fun i => l[i]?.toList) = l.take n := by
  induction n with
  | zero => rfl
  | succ n ih =>
    rw [List.range_succ, List.flatMap_append, ih, List.take_add_one]
    simp

theorem filterMap_range_getElem? (l : List α) {n : ℕ} (h : l.length ≤ n) :
    ((List.range n).filterMap fun i => l[i]?) = l := by
  rw [List.filterMap_eq_flatMap_toList, flatMap_range_getElem?, List.take_of_length_le h]

theorem getElem?_concat_of_ne {l : List α} {i : ℕ} {line : α} (h : i ≠ l.length) :
    (l ++ [line])[i]? = l[i]? := by
  rw [List.getElem?_append]
  by_cases hlt : i < l.length
  · rw [if_pos hlt]
  · rw [if_neg hlt, List.getElem?_eq_none (by simp only [List.length_singleton]; omega),
      List.getElem?_eq_none (by omega)]

/-! ## By position -/

section Large

variable {baseline variant : List α} {matched : List (Option α)}

/-- Where the first lines of a variant stand once the loop has passed them. -/
structure Pushed (baseline : List α) (matched : List (Option α)) (passed : List α)
    (aligned : AlignedLines α) : Prop where
  matched_eq : aligned.matched = matched
  length_insertions : aligned.insertions.length = baseline.length + 1
  insertionsAt_eq : ∀ i < baseline.length, aligned.insertionsAt i =
    if matched[i]? = some none then passed[i]?.toList else []
  insertionsAt_end : aligned.insertionsAt baseline.length = passed.drop baseline.length

theorem Pushed.step {passed : List α} {aligned : AlignedLines α}
    (h : Pushed baseline matched passed aligned) (line : α) :
    Pushed baseline matched (passed ++ [line])
      (pushUnmatched baseline matched aligned (line, passed.length)) := by
  unfold pushUnmatched
  dsimp only
  by_cases hpush : matched[passed.length]? = some none ∨ baseline.length ≤ passed.length
  · rw [if_pos hpush]
    have hlt : min passed.length baseline.length < aligned.insertions.length := by
      rw [h.length_insertions]
      omega
    refine ⟨h.matched_eq, by simp [h.length_insertions], fun i hi => ?_, ?_⟩
    · rw [AlignedLines.insertionsAt_push hlt, h.insertionsAt_eq i hi]
      by_cases hp : i = passed.length
      · have hnone : matched[i]? = some none := by
          rcases hpush with hnone | hle
          · rw [hp, hnone]
          · omega
        rw [if_pos (by omega), if_pos hnone, if_pos hnone]
        simp [hp]
      · rw [if_neg (by omega), getElem?_concat_of_ne hp]
    · rw [AlignedLines.insertionsAt_push hlt, h.insertionsAt_end]
      by_cases hle : baseline.length ≤ passed.length
      · rw [if_pos (by omega), List.drop_append_of_le_length hle]
      · rw [if_neg (by omega), List.drop_eq_nil_of_le (by omega),
          List.drop_eq_nil_of_le (by simp; omega)]
  · rw [if_neg hpush]
    rw [not_or] at hpush
    refine ⟨h.matched_eq, h.length_insertions, fun i hi => ?_, ?_⟩
    · rw [h.insertionsAt_eq i hi]
      by_cases hnone : matched[i]? = some none
      · have hne : i ≠ passed.length := by
          rintro rfl
          exact hpush.1 hnone
        rw [if_pos hnone, if_pos hnone]
        rw [getElem?_concat_of_ne hne]
      · rw [if_neg hnone, if_neg hnone]
    · rw [h.insertionsAt_end, List.drop_eq_nil_of_le (by omega),
        List.drop_eq_nil_of_le (by simp; omega)]

theorem pushed_foldl (passed : List α) :
    Pushed baseline matched passed (passed.zipIdx.foldl (pushUnmatched baseline matched)
      { insertions := List.replicate (baseline.length + 1) [], matched := matched }) := by
  induction passed using List.reverseRecOn with
  | nil =>
    have hnil : ∀ i, (AlignedLines.mk (List.replicate (baseline.length + 1) [])
        matched).insertionsAt i = ([] : List α) :=
      fun i => AlignedLines.insertionsAt_empty baseline
    refine ⟨rfl, by simp, fun i hi => ?_, ?_⟩
    · simp [hnil]
    · simp [hnil]
  | append_singleton passed line ih =>
    rw [List.zipIdx_append, List.foldl_append]
    simpa using ih.step line

theorem alignLargeDocument_aligns :
    Aligns baseline variant (alignLargeDocument baseline variant) := by
  have h : Pushed baseline _ variant (alignLargeDocument baseline variant) := pushed_foldl variant
  have hmatch : ∀ i, (alignLargeDocument baseline variant).matchAt i =
      baseline[i]?.bind fun line => if variant[i]? = some line then some line else none := by
    intro i
    rw [AlignedLines.matchAt, h.matched_eq, List.getD_eq_getElem?_getD, List.getElem?_mapIdx]
    cases baseline[i]? <;> rfl
  have hcells : ∀ i < baseline.length,
      (alignLargeDocument baseline variant).cells i = variant[i]?.toList := by
    intro i hi
    rw [AlignedLines.cells, h.insertionsAt_eq i hi, hmatch, List.getElem?_mapIdx,
      List.getElem?_eq_getElem hi]
    by_cases heq : variant[i]? = some baseline[i]
    · simp [heq]
    · simp [heq]
  refine ⟨fun i line hline => ?_, ?_⟩
  · rw [hmatch] at hline
    obtain ⟨b, hb, hline⟩ := Option.bind_eq_some_iff.mp hline
    by_cases heq : variant[i]? = some b
    · rw [if_pos heq] at hline
      rw [hb, hline]
    · rw [if_neg heq] at hline
      cases hline
  · have hend : (alignLargeDocument baseline variant).cells baseline.length =
        variant.drop baseline.length := by
      rw [AlignedLines.cells, h.insertionsAt_end, hmatch, List.getElem?_eq_none le_rfl]
      simp
    have hinit : (List.range baseline.length).flatMap
        (alignLargeDocument baseline variant).cells = variant.take baseline.length := by
      rw [← flatMap_range_getElem?]
      exact List.flatMap_congr fun i hi => hcells i (List.mem_range.mp hi)
    rw [List.range_succ, List.flatMap_append, hinit, List.flatMap_singleton, hend,
      List.take_append_drop]

end Large

/-! ## By a longest common subsequence -/

section Lcs

variable {baseline variant : List α} {left right : ℕ} {aligned : AlignedLines α}

/-- The lines of the baseline before a place that stand next to one of the variant. -/
def matchedBefore (aligned : AlignedLines α) (left : ℕ) : ℕ :=
  ((List.range left).filter fun i => (aligned.matchAt i).isSome).length

theorem matchedBefore_succ : matchedBefore aligned (left + 1) =
    matchedBefore aligned left + if (aligned.matchAt left).isSome then 1 else 0 := by
  rw [matchedBefore, matchedBefore, List.range_succ, List.filter_append, List.length_append,
    List.filter_singleton]
  cases (aligned.matchAt left).isSome <;> simp

theorem matchedBefore_congr {other : AlignedLines α}
    (h : ∀ i < left, other.matchAt i = aligned.matchAt i) :
    matchedBefore other left = matchedBefore aligned left := by
  unfold matchedBefore
  rw [List.filter_congr fun i hi => by rw [h i (List.mem_range.mp hi)]]

theorem flatMap_cells_congr {other : AlignedLines α}
    (h : ∀ i < left, other.cells i = aligned.cells i) :
    (List.range left).flatMap other.cells = (List.range left).flatMap aligned.cells :=
  List.flatMap_congr fun i hi => h i (List.mem_range.mp hi)

/-- What the loop has done when it stands at two places : the lines of the variant it passed are
read before the place of the baseline, and everything behind it is as it was. -/
structure AlignedUpTo (baseline variant : List α) (left right : ℕ) (aligned : AlignedLines α) :
    Prop where
  left_le : left ≤ baseline.length
  length_insertions : aligned.insertions.length = baseline.length + 1
  length_matched : aligned.matched.length = baseline.length
  matchAt_eq : ∀ i line, aligned.matchAt i = some line → baseline[i]? = some line
  reading : (List.range left).flatMap aligned.cells ++ aligned.insertionsAt left =
    variant.take right
  insertionsAt_eq_nil : ∀ i, left < i → aligned.insertionsAt i = []
  matchAt_eq_none : ∀ i, left ≤ i → aligned.matchAt i = none
  count : matchedBefore aligned left +
    CommonSublist.lcsLength (baseline.drop left) (variant.drop right) =
      CommonSublist.lcsLength baseline variant

theorem alignedUpTo_empty : AlignedUpTo baseline variant 0 0 (AlignedLines.empty baseline) where
  left_le := Nat.zero_le _
  length_insertions := by simp [AlignedLines.empty]
  length_matched := by simp [AlignedLines.empty]
  matchAt_eq := by simp
  reading := by simp
  insertionsAt_eq_nil := by simp
  matchAt_eq_none := by simp
  count := by simp [matchedBefore]

namespace AlignedUpTo

/-- Equal lines are put next to each other. -/
theorem step_match (h : AlignedUpTo baseline variant left right aligned)
    (hl : left < baseline.length) (hr : right < variant.length)
    (heq : baseline[left] = variant[right]) :
    AlignedUpTo baseline variant (left + 1) (right + 1) (aligned.setMatch left variant[right]) := by
  have hset := AlignedLines.matchAt_setMatch (h.length_matched.symm ▸ hl) variant[right]
  have hbefore : ∀ i < left, (aligned.setMatch left variant[right]).matchAt i =
      aligned.matchAt i := fun i hi => by rw [hset, if_neg (by omega)]
  have hat : (aligned.setMatch left variant[right]).matchAt left = some variant[right] := by
    rw [hset, if_pos rfl]
  have hcells : (List.range left).flatMap (aligned.setMatch left variant[right]).cells =
      (List.range left).flatMap aligned.cells := by
    refine flatMap_cells_congr fun i hi => ?_
    rw [AlignedLines.cells, hbefore i hi, AlignedLines.insertionsAt_setMatch, AlignedLines.cells]
  refine ⟨hl, h.length_insertions, by simp [h.length_matched], fun i line hline => ?_, ?_,
    fun i hi => h.insertionsAt_eq_nil i (by omega), fun i hi => ?_, ?_⟩
  · rw [hset] at hline
    by_cases hi : i = left
    · rw [if_pos hi, Option.some.injEq] at hline
      rw [hi, List.getElem?_eq_getElem hl, heq, hline]
    · rw [if_neg hi] at hline
      exact h.matchAt_eq i line hline
  · rw [List.range_succ, List.flatMap_append, hcells, List.flatMap_singleton, AlignedLines.cells,
      hat, AlignedLines.insertionsAt_setMatch, AlignedLines.insertionsAt_setMatch,
      h.insertionsAt_eq_nil (left + 1) (by omega), List.append_nil, ← List.append_assoc,
      h.reading, List.take_add_one, List.getElem?_eq_getElem hr]
  · rw [hset, if_neg (by omega)]
    exact h.matchAt_eq_none i (by omega)
  · have hcount := h.count
    rw [List.drop_eq_getElem_cons hl, List.drop_eq_getElem_cons hr, heq,
      CommonSublist.lcsLength_cons_self] at hcount
    rw [matchedBefore_succ, matchedBefore_congr hbefore, hat, if_pos (by simp)]
    omega

/-- A line of the variant is put before the place. -/
theorem step_push (h : AlignedUpTo baseline variant left right aligned)
    (hr : right < variant.length)
    (hcount : CommonSublist.lcsLength (baseline.drop left) (variant.drop right) =
      CommonSublist.lcsLength (baseline.drop left) (variant.drop (right + 1))) :
    AlignedUpTo baseline variant left (right + 1) (aligned.push left variant[right]) := by
  have hlt : left < aligned.insertions.length := by
    have hle := h.left_le
    rw [h.length_insertions]
    omega
  have hpush := AlignedLines.insertionsAt_push hlt variant[right]
  have hcells : (List.range left).flatMap (aligned.push left variant[right]).cells =
      (List.range left).flatMap aligned.cells := by
    refine flatMap_cells_congr fun i hi => ?_
    rw [AlignedLines.cells, hpush, if_neg (by omega), AlignedLines.matchAt_push,
      AlignedLines.cells]
  refine ⟨h.left_le, by simp [h.length_insertions], h.length_matched, h.matchAt_eq, ?_,
    fun i hi => ?_, h.matchAt_eq_none, ?_⟩
  · rw [hcells, hpush, if_pos rfl, ← List.append_assoc, h.reading, List.take_add_one,
      List.getElem?_eq_getElem hr]
    rfl
  · rw [hpush, if_neg (by omega)]
    exact h.insertionsAt_eq_nil i hi
  · rw [← hcount]
    exact h.count

/-- A line of the baseline has no counterpart. -/
theorem step_skip (h : AlignedUpTo baseline variant left right aligned)
    (hl : left < baseline.length)
    (hcount : CommonSublist.lcsLength (baseline.drop left) (variant.drop right) =
      CommonSublist.lcsLength (baseline.drop (left + 1)) (variant.drop right)) :
    AlignedUpTo baseline variant (left + 1) right aligned := by
  have hnone := h.matchAt_eq_none left le_rfl
  refine ⟨hl, h.length_insertions, h.length_matched, h.matchAt_eq, ?_,
    fun i hi => h.insertionsAt_eq_nil i (by omega), fun i hi => h.matchAt_eq_none i (by omega), ?_⟩
  · rw [List.range_succ, List.flatMap_append, List.flatMap_singleton, AlignedLines.cells, hnone,
      h.insertionsAt_eq_nil (left + 1) (by omega)]
    simpa using h.reading
  · have hbefore := h.count
    rw [matchedBefore_succ, hnone, if_neg (by simp)]
    omega

/-- Once the variant has been passed, the rest of the baseline has no counterpart. -/
theorem to_end (h : AlignedUpTo baseline variant left right aligned)
    (hr : variant.length ≤ right) :
    AlignedUpTo baseline variant baseline.length right aligned := by
  have hle := h.left_le
  induction hn : baseline.length - left generalizing left with
  | zero =>
    have heq : left = baseline.length := by omega
    rwa [heq] at h
  | succ n ih =>
    have hstep := h.step_skip (by omega) (by simp [List.drop_eq_nil_of_le hr])
    exact ih hstep hstep.left_le (by omega)

/-- The lines that are left are put behind the baseline. -/
theorem finish (h : AlignedUpTo baseline variant baseline.length right aligned) :
    let final := (variant.drop right).foldl
      (fun aligned line => aligned.push baseline.length line) aligned
    Aligns baseline variant final ∧
      matchedBefore final baseline.length = CommonSublist.lcsLength baseline variant := by
  have hlt : baseline.length < aligned.insertions.length := by
    rw [h.length_insertions]
    omega
  obtain ⟨hins, hmatch⟩ := AlignedLines.foldl_push hlt (variant.drop right)
  intro final
  refine ⟨⟨fun i line hline => h.matchAt_eq i line (by rw [← hmatch, hline]), ?_⟩, ?_⟩
  · have hcells : (List.range baseline.length).flatMap final.cells =
        (List.range baseline.length).flatMap aligned.cells := by
      refine flatMap_cells_congr fun i hi => ?_
      rw [AlignedLines.cells, hins, if_neg (by omega), hmatch, AlignedLines.cells]
    rw [List.range_succ, List.flatMap_append, hcells, List.flatMap_singleton, AlignedLines.cells,
      hins, if_pos rfl, hmatch, h.matchAt_eq_none _ le_rfl, Option.toList_none, List.append_nil,
      ← List.append_assoc, h.reading, List.take_append_drop]
  · have hcount := h.count
    rw [List.drop_length, CommonSublist.lcsLength_nil_left] at hcount
    rw [matchedBefore_congr fun i _ => hmatch i]
    exact hcount

end AlignedUpTo

/-- At different lines, the length is the greater of those behind either. -/
theorem lcsLength_drop_of_ne (hl : left < baseline.length) (hr : right < variant.length)
    (hne : baseline[left] ≠ variant[right]) :
    CommonSublist.lcsLength (baseline.drop left) (variant.drop right) =
      max (CommonSublist.lcsLength (baseline.drop (left + 1)) (variant.drop right))
        (CommonSublist.lcsLength (baseline.drop left) (variant.drop (right + 1))) := by
  rw [List.drop_eq_getElem_cons hl, List.drop_eq_getElem_cons hr,
    CommonSublist.lcsLength_cons_of_ne hne]

theorem alignFrom_aligns (h : AlignedUpTo baseline variant left right aligned) :
    let final := alignFrom baseline variant (CommonSublist.lcsTable baseline variant) left right
      aligned
    Aligns baseline variant final ∧
      matchedBefore final baseline.length = CommonSublist.lcsLength baseline variant := by
  induction left, right, aligned using alignFrom.induct baseline variant
    (CommonSublist.lcsTable baseline variant) with
  | case1 left right aligned hlt heq ih =>
    rw [alignFrom, dif_pos hlt, if_pos heq]
    exact ih (h.step_match hlt.1 hlt.2 heq)
  | case2 left right aligned hlt hne hle ih =>
    rw [alignFrom, dif_pos hlt, if_neg hne, if_pos hle]
    rw [CommonSublist.getElem_lcsTable (show left + 1 ≤ baseline.length from hlt.1) hlt.2.le,
      CommonSublist.getElem_lcsTable hlt.1.le (show right + 1 ≤ variant.length from hlt.2)] at hle
    refine ih (h.step_push hlt.2 ?_)
    rw [lcsLength_drop_of_ne hlt.1 hlt.2 hne]
    omega
  | case3 left right aligned hlt hne hle ih =>
    rw [alignFrom, dif_pos hlt, if_neg hne, if_neg hle]
    rw [CommonSublist.getElem_lcsTable (show left + 1 ≤ baseline.length from hlt.1) hlt.2.le,
      CommonSublist.getElem_lcsTable hlt.1.le (show right + 1 ≤ variant.length from hlt.2)] at hle
    refine ih (h.step_skip hlt.1 ?_)
    rw [lcsLength_drop_of_ne hlt.1 hlt.2 hne]
    omega
  | case4 left right aligned hge =>
    rw [alignFrom, dif_neg hge]
    have hle := h.left_le
    by_cases hl : left < baseline.length
    · exact (h.to_end (by omega)).finish
    · have heq : left = baseline.length := by omega
      rw [heq] at h
      exact h.finish

end Lcs

/-! ## The rows -/

section Rows

variable {baseline variant editing current : List α}

theorem alignToBaseline_aligns (baseline variant : List α) :
    Aligns baseline variant (alignToBaseline baseline variant) := by
  unfold alignToBaseline
  by_cases hlarge : 250000 < baseline.length * variant.length
  · rw [if_pos hlarge]
    exact alignLargeDocument_aligns
  · rw [if_neg hlarge]
    exact (alignFrom_aligns alignedUpTo_empty).1

theorem matchedBefore_alignToBaseline (h : baseline.length * variant.length ≤ 250000) :
    matchedBefore (alignToBaseline baseline variant) baseline.length =
      CommonSublist.lcsLength baseline variant := by
  rw [alignToBaseline, if_neg (by omega)]
  exact (alignFrom_aligns alignedUpTo_empty).2

/-- Behind the baseline no line stands at a place. -/
theorem Aligns.matchAt_eq_none {aligned : AlignedLines α} (h : Aligns baseline variant aligned)
    {i : ℕ} (hi : baseline.length ≤ i) : aligned.matchAt i = none := by
  cases hmatch : aligned.matchAt i with
  | none => rfl
  | some line =>
    have hline := h.matchAt_eq i line hmatch
    rw [List.getElem?_eq_none hi] at hline
    cases hline

variable {editingAligned currentAligned : AlignedLines α} {i : ℕ}

/-- What a column shows at a place, from what it has in the rows before the place and in its
row. -/
theorem filterMap_rowsAt {column : ConflictLine α → Option α} (insertions : List α)
    (own : α → Option α)
    (hins : ∀ k : ℕ, column (insertionRow (editingAligned.insertionsAt i)[k]?
      (currentAligned.insertionsAt i)[k]?) = insertions[k]?)
    (hle : insertions.length ≤
      max (editingAligned.insertionsAt i).length (currentAligned.insertionsAt i).length)
    (hown : ∀ line, column (baselineRow i line (editingAligned.matchAt i)
      (currentAligned.matchAt i)) = own line) :
    (rowsAt baseline editingAligned currentAligned i).filterMap column =
      insertions ++ (baseline[i]?.bind own).toList := by
  unfold rowsAt
  rw [List.filterMap_append, List.filterMap_map]
  congr 1
  · exact (List.filterMap_congr fun k _ => hins k).trans (filterMap_range_getElem? insertions hle)
  · cases baseline[i]? with
    | none => rfl
    | some line =>
      rw [Option.map_some, Option.toList_some, Option.bind_some, ← hown]
      cases hcolumn : column _ <;> simp [hcolumn]

theorem Aligns.bind_matchAt {aligned : AlignedLines α} (h : Aligns baseline variant aligned) :
    (baseline[i]?.bind fun _ => aligned.matchAt i) = aligned.matchAt i := by
  cases hmatch : aligned.matchAt i with
  | none => simp
  | some line => simp [h.matchAt_eq i line hmatch]

/-- The column of the first version holds the lines of the baseline. -/
theorem filterMap_editingStarted_alignLines :
    (alignLines baseline editing current).filterMap ConflictLine.editingStarted = baseline := by
  have hplace : ∀ i, (rowsAt baseline (alignToBaseline baseline editing)
      (alignToBaseline baseline current) i).filterMap ConflictLine.editingStarted =
        baseline[i]?.toList := by
    intro i
    rw [filterMap_rowsAt [] some (fun k => by simp [insertionRow]) (Nat.zero_le _) fun line => rfl]
    simp
  rw [alignLines, List.filterMap_flatMap, List.flatMap_congr fun i _ => hplace i,
    flatMap_range_getElem?, List.take_of_length_le (Nat.le_succ _)]

/-- The column of the edited version holds its lines. -/
theorem filterMap_editing_alignLines :
    (alignLines baseline editing current).filterMap ConflictLine.editing = editing := by
  have h := alignToBaseline_aligns baseline editing
  have hplace : ∀ i, (rowsAt baseline (alignToBaseline baseline editing)
      (alignToBaseline baseline current) i).filterMap ConflictLine.editing =
        (alignToBaseline baseline editing).cells i := by
    intro i
    rw [filterMap_rowsAt _ (fun _ => (alignToBaseline baseline editing).matchAt i) (fun k => rfl)
      (le_max_left _ _) fun line => rfl, h.bind_matchAt, AlignedLines.cells]
  rw [alignLines, List.filterMap_flatMap, List.flatMap_congr fun i _ => hplace i, h.reading]

/-- The column of the current version holds its lines. -/
theorem filterMap_current_alignLines :
    (alignLines baseline editing current).filterMap ConflictLine.current = current := by
  have h := alignToBaseline_aligns baseline current
  have hplace : ∀ i, (rowsAt baseline (alignToBaseline baseline editing)
      (alignToBaseline baseline current) i).filterMap ConflictLine.current =
        (alignToBaseline baseline current).cells i := by
    intro i
    rw [filterMap_rowsAt _ (fun _ => (alignToBaseline baseline current).matchAt i) (fun k => rfl)
      (le_max_right _ _) fun line => rfl, h.bind_matchAt, AlignedLines.cells]
  rw [alignLines, List.filterMap_flatMap, List.flatMap_congr fun i _ => hplace i, h.reading]

theorem mem_rowsAt {row : ConflictLine α}
    (h : row ∈ rowsAt baseline editingAligned currentAligned i) :
    (∃ k : ℕ, row = insertionRow (editingAligned.insertionsAt i)[k]?
      (currentAligned.insertionsAt i)[k]?) ∨
    ∃ line, baseline[i]? = some line ∧
      row = baselineRow i line (editingAligned.matchAt i) (currentAligned.matchAt i) := by
  unfold rowsAt at h
  rcases List.mem_append.mp h with h | h
  · obtain ⟨k, -, rfl⟩ := List.mem_map.mp h
    exact Or.inl ⟨k, rfl⟩
  · rw [Option.mem_toList] at h
    obtain ⟨line, hline, rfl⟩ := Option.map_eq_some_iff.mp h
    exact Or.inr ⟨line, hline, rfl⟩

theorem deletions_eq_nil {editingLine currentLine : Option α} :
    deletions editingLine currentLine = [] ↔ editingLine ≠ none ∧ currentLine ≠ none := by
  cases editingLine <;> cases currentLine <;> simp [deletions]

/-- A row without a change shows one line three times. -/
theorem eq_of_changed_eq_false {row : ConflictLine α}
    (h : row ∈ alignLines baseline editing current) (hrow : row.changed = false) :
    ∃ line, row.editingStarted = some line ∧ row.editing = some line ∧
      row.current = some line := by
  obtain ⟨i, -, hi⟩ := List.mem_flatMap.mp h
  have hplaced : ∀ (variant : List α) (line other : α), baseline[i]? = some line →
      (alignToBaseline baseline variant).matchAt i = some other → other = line := by
    intro variant line other hline hother
    have hat := (alignToBaseline_aligns baseline variant).matchAt_eq i other hother
    rw [hline, Option.some.injEq] at hat
    exact hat.symm
  rcases mem_rowsAt hi with ⟨k, rfl⟩ | ⟨line, hline, rfl⟩
  · cases hrow
  · have hnil : deletions ((alignToBaseline baseline editing).matchAt i)
        ((alignToBaseline baseline current).matchAt i) = [] := by
      have hlength := of_decide_eq_false hrow
      exact List.length_eq_zero_iff.mp (by omega)
    obtain ⟨he, hc⟩ := deletions_eq_nil.mp hnil
    obtain ⟨editingLine, he⟩ := Option.ne_none_iff_exists'.mp he
    obtain ⟨currentLine, hc⟩ := Option.ne_none_iff_exists'.mp hc
    refine ⟨line, rfl, ?_, ?_⟩
    · rw [← hplaced editing line editingLine hline he, ← he]
      rfl
    · rw [← hplaced current line currentLine hline hc, ← hc]
      rfl

/-- The lines of the first version that stand next to one of the version in a column. -/
def matchedRows (rows : List (ConflictLine α)) (column : ConflictLine α → Option α) : ℕ :=
  (rows.filter fun row => row.editingStarted.isSome && (column row).isSome).length

theorem matchedRows_rowsAt {column : ConflictLine α → Option α} {aligned : AlignedLines α}
    (h : Aligns baseline variant aligned)
    (hown : ∀ line, column (baselineRow i line (editingAligned.matchAt i)
      (currentAligned.matchAt i)) = aligned.matchAt i) :
    matchedRows (rowsAt baseline editingAligned currentAligned i) column =
      if (aligned.matchAt i).isSome then 1 else 0 := by
  unfold matchedRows rowsAt
  rw [List.filter_append, List.filter_map, List.filter_eq_nil_iff.mpr fun k _ => by
    simp [insertionRow]]
  cases hline : baseline[i]? with
  | none =>
    rw [h.matchAt_eq_none (List.getElem?_eq_none_iff.mp hline)]
    rfl
  | some line =>
    have hstarted : (baselineRow i line (editingAligned.matchAt i)
      (currentAligned.matchAt i)).editingStarted = some line := rfl
    rw [Option.map_some, Option.toList_some, List.map_nil, List.nil_append, List.filter_singleton,
      hstarted, hown]
    cases aligned.matchAt i <;> rfl

theorem matchedRows_flatMap {column : ConflictLine α → Option α} {aligned : AlignedLines α}
    (h : Aligns baseline variant aligned)
    (hown : ∀ i line, column (baselineRow i line (editingAligned.matchAt i)
      (currentAligned.matchAt i)) = aligned.matchAt i) (n : ℕ) :
    matchedRows ((List.range n).flatMap (rowsAt baseline editingAligned currentAligned)) column =
      matchedBefore aligned n := by
  induction n with
  | zero => rfl
  | succ n ih =>
    have hplace := matchedRows_rowsAt h (hown n)
    unfold matchedRows at ih hplace ⊢
    rw [List.range_succ, List.flatMap_append, List.filter_append, List.length_append, ih,
      List.flatMap_singleton, hplace, matchedBefore_succ]

theorem matchedRows_alignLines (variant : List α) {column : ConflictLine α → Option α}
    (hown : ∀ i line, column (baselineRow i line ((alignToBaseline baseline editing).matchAt i)
      ((alignToBaseline baseline current).matchAt i)) =
        (alignToBaseline baseline variant).matchAt i)
    (hsize : baseline.length * variant.length ≤ 250000) :
    IsGreatest {n | ∃ lines : List α, lines.Sublist baseline ∧ lines.Sublist variant ∧
      lines.length = n} (matchedRows (alignLines baseline editing current) column) := by
  have h := alignToBaseline_aligns baseline variant
  rw [alignLines, matchedRows_flatMap h hown, matchedBefore_succ, h.matchAt_eq_none le_rfl,
    if_neg (by simp), Nat.add_zero, matchedBefore_alignToBaseline hsize]
  exact CommonSublist.isGreatest_lcsLength baseline variant

end Rows

/-- The three columns hold the lines of the three versions in their order, a row without a change
shows one line, and up to the limit as many lines of the first version stand next to one of a
later version as a longest common subsequence has. -/
theorem alignThreeVersions_reads (editingStarted editing current : JsString) :
    (alignThreeVersions editingStarted editing current).filterMap ConflictLine.editingStarted =
      splitLines editingStarted ∧
    (alignThreeVersions editingStarted editing current).filterMap ConflictLine.editing =
      splitLines editing ∧
    (alignThreeVersions editingStarted editing current).filterMap ConflictLine.current =
      splitLines current ∧
    (∀ row ∈ alignThreeVersions editingStarted editing current, row.changed = false →
      ∃ line, row.editingStarted = some line ∧ row.editing = some line ∧
        row.current = some line) ∧
    ((splitLines editingStarted).length * (splitLines editing).length ≤ 250000 →
      IsGreatest {n | ∃ lines : List JsString, lines.Sublist (splitLines editingStarted) ∧
          lines.Sublist (splitLines editing) ∧ lines.length = n}
        (matchedRows (alignThreeVersions editingStarted editing current)
          ConflictLine.editing)) ∧
    ((splitLines editingStarted).length * (splitLines current).length ≤ 250000 →
      IsGreatest {n | ∃ lines : List JsString, lines.Sublist (splitLines editingStarted) ∧
          lines.Sublist (splitLines current) ∧ lines.length = n}
        (matchedRows (alignThreeVersions editingStarted editing current)
          ConflictLine.current)) := by
  refine ⟨filterMap_editingStarted_alignLines, filterMap_editing_alignLines,
    filterMap_current_alignLines, fun _ hrow => eq_of_changed_eq_false hrow, ?_, ?_⟩
  · exact matchedRows_alignLines (splitLines editing) fun _ _ => rfl
  · exact matchedRows_alignLines (splitLines current) fun _ _ => rfl

end EditorConflict

end Marginalis
