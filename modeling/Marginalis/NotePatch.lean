import Marginalis.Characters
import Marginalis.Result
import Marginalis.TextLines
import Mathlib.Algebra.Order.Ring.Nat

/-!
# Applying a unified diff to a note

`applyNotePatch` interprets a patch (`parsePatch`) and applies it to a stored source, strictly :
a hunk changes the source only where its lines are the source's at the announced positions.
Texts are lists of characters. A computation ends with a value, with an error of the module, or
by a panic (`PatchFailure`) : the slices, the byte offset `[1..]` and the `expect` of the source
panic here where they would there.

A `usize` is a natural number. Positions are bounded by the lengths of texts, so only the numbers
a patch announces can reach `usizeBound`, and these are checked where they are parsed.
-/

namespace Marginalis

/-- `usize` has 64 bits. -/
def usizeBound : ℕ := 2 ^ 64

/-- The number of UTF-8 bytes of a text. -/
def utf8Len (s : List Char) : ℕ := (s.map Char.utf8Size).sum

/-- The limits of `NOTE_POLICY` on a source and on a patch. -/
structure NotePolicy where
  maxSourceBytes : ℕ
  maxPatchBytes : ℕ
  maxPatchHunks : ℕ

def notePolicy : NotePolicy where
  maxSourceBytes := 512 * 1024
  maxPatchBytes := 512 * 1024
  maxPatchHunks := 100

/-- Why a patch cannot be applied. -/
inductive NotePatchError
  | patchTooLarge
  | tooManyHunks
  | invalidFormat (line : ℕ)
  | unsupportedHeader
  | hunkOutOfOrder (hunk : ℕ)
  | hunkOutOfRange (hunk : ℕ)
  | hunkMismatch (hunk : ℕ) (sourceLine : ℕ)
  deriving DecidableEq, Repr

/-- How a computation ends without a value. -/
inductive PatchFailure
  | error (e : NotePatchError)
  | panicked
  deriving DecidableEq, Repr

/-- The changed source and the amount of change. -/
structure NotePatchOutcome where
  source : List Char
  hunksApplied : ℕ
  linesAdded : ℕ
  linesRemoved : ℕ
  deriving DecidableEq, Repr

/-- A line of the body of a hunk. -/
inductive HunkLine
  | context (text : List Char)
  | remove (text : List Char)
  | add (text : List Char)
  deriving DecidableEq, Repr

structure Hunk where
  oldStart : ℕ
  oldLen : ℕ
  newLen : ℕ
  lines : List HunkLine
  oldEndsWithoutNewline : Bool
  newEndsWithoutNewline : Bool
  deriving DecidableEq, Repr

/-! ## Headers -/

/-- `str::split_once` : the text before and after the first occurrence of `separator`. -/
def splitOnce (separator : List Char) : List Char → Option (List Char × List Char)
  | [] => if separator = [] then some ([], []) else none
  | c :: s =>
    if separator.isPrefixOf (c :: s) then some ([], (c :: s).drop separator.length)
    else (splitOnce separator s).map fun parts => (c :: parts.1, parts.2)

/-- `str::strip_prefix`. -/
def stripPrefix (start s : List Char) : Option (List Char) :=
  if start.isPrefixOf s then some (s.drop start.length) else none

/-- `str::parse::<usize>` : ASCII digits after an optional plus sign. -/
def parseUsize (s : List Char) : Option ℕ :=
  let digits := if s.head? = some '+' then s.tail else s
  if digits ≠ [] ∧ digits.all Char.isDigit = true ∧ Nat.ofDigitChars 10 digits 0 < usizeBound then
    some (Nat.ofDigitChars 10 digits 0)
  else none

/-- `parse_range`. -/
def parseRange (range : List Char) : Option (ℕ × ℕ) :=
  match splitOnce [','] range with
  | some (start, len) => do return (← parseUsize start, ← parseUsize len)
  | none => do return (← parseUsize range, 1)

/-- `parse_hunk_header` : the start of the old range and the lengths of both. -/
def parseHunkHeader (header : List Char) : Option (ℕ × ℕ × ℕ) := do
  let rest ← stripPrefix "@@ -".toList header
  let (oldPart, rest) ← splitOnce " +".toList rest
  let (newPart, _) ← splitOnce " @@".toList rest
  let (oldStart, oldLen) ← parseRange oldPart
  let (_, newLen) ← parseRange newPart
  return (oldStart, oldLen, newLen)

/-! ## Hunks -/

/-- A line of the patch with its index. -/
abbrev PatchLine := List Char × ℕ

/-- `body[1..]`. -/
def sliceFromOne (body : List Char) : Except PatchFailure (List Char) :=
  match body with
  | c :: rest => if c.utf8Size = 1 then .ok rest else .error .panicked
  | [] => .error .panicked

/-- One line of the body of a hunk, by its first character. -/
def parseHunkLine (body : PatchLine) : Except PatchFailure HunkLine :=
  match body.1.head? with
  | some ' ' => (sliceFromOne body.1).map .context
  | some '-' => (sliceFromOne body.1).map .remove
  | some '+' => (sliceFromOne body.1).map .add
  | none => .ok (.context [])
  | _ => .error (.error (.invalidFormat (body.2 + 1)))

/-- A line counts on the sides it stands on. -/
def HunkLine.oldCount : HunkLine → ℕ
  | context _ | remove _ => 1
  | add _ => 0

def HunkLine.newCount : HunkLine → ℕ
  | context _ | add _ => 1
  | remove _ => 0

/-- A marker names the sides of the line before it. -/
def Hunk.mark (hunk : Hunk) : Except PatchFailure Hunk :=
  match hunk.lines.getLast? with
  | none => .error .panicked
  | some (.context _) =>
    .ok { hunk with oldEndsWithoutNewline := true, newEndsWithoutNewline := true }
  | some (.remove _) => .ok { hunk with oldEndsWithoutNewline := true }
  | some (.add _) => .ok { hunk with newEndsWithoutNewline := true }

/-- The loop over the body of a hunk : it reads lines until both sides have as many as the
header announced, each with the marker after it. -/
def readHunk (headerLine : ℕ) (hunk : Hunk) (seenOld seenNew : ℕ) (lines : List PatchLine) :
    Except PatchFailure (Hunk × List PatchLine) :=
  if seenOld < hunk.oldLen ∨ seenNew < hunk.newLen then
    match lines with
    | [] => .error (.error (.invalidFormat headerLine))
    | body :: lines => do
      let line ← parseHunkLine body
      let hunk := { hunk with lines := hunk.lines ++ [line] }
      let seenOld := seenOld + line.oldCount
      let seenNew := seenNew + line.newCount
      match lines with
      | [] => readHunk headerLine hunk seenOld seenNew []
      | marker :: rest =>
        if marker.1.head? = some '\\' then do
          let hunk ← hunk.mark
          readHunk headerLine hunk seenOld seenNew rest
        else readHunk headerLine hunk seenOld seenNew (marker :: rest)
  else .ok (hunk, lines)
termination_by structural lines

/-- The line starts a marker. -/
def isMarker (line : PatchLine) : Prop := line.1.head? = some '\\'

/-- What one round of the loop can do, when the loop ends with a hunk. -/
theorem readHunk_cases {headerLine : ℕ} {hunk hunk' : Hunk} {seenOld seenNew : ℕ}
    {lines rest : List PatchLine}
    (h : readHunk headerLine hunk seenOld seenNew lines = .ok (hunk', rest)) :
    ¬(seenOld < hunk.oldLen ∨ seenNew < hunk.newLen) ∧ hunk' = hunk ∧ rest = lines ∨
      (seenOld < hunk.oldLen ∨ seenNew < hunk.newLen) ∧ ∃ body line lines',
        lines = body :: lines' ∧ parseHunkLine body = .ok line ∧
        ((∃ marker lines'' marked, lines' = marker :: lines'' ∧ isMarker marker ∧
          Hunk.mark { hunk with lines := hunk.lines ++ [line] } = .ok marked ∧
          readHunk headerLine marked (seenOld + line.oldCount) (seenNew + line.newCount) lines'' =
            .ok (hunk', rest)) ∨
        (∀ marker ∈ lines'.head?, ¬isMarker marker) ∧
          readHunk headerLine { hunk with lines := hunk.lines ++ [line] }
            (seenOld + line.oldCount) (seenNew + line.newCount) lines' = .ok (hunk', rest)) := by
  unfold readHunk at h
  split at h
  · next hmore =>
    refine Or.inr ⟨hmore, ?_⟩
    split at h
    · cases h
    · next body lines' =>
      obtain ⟨line, hline, h⟩ := Except.bind_eq_ok.mp h
      refine ⟨body, line, lines', rfl, hline, ?_⟩
      split at h
      · exact Or.inr ⟨by simp, h⟩
      · next marker lines'' _ =>
        dsimp only at h
        split at h
        · next hmarker =>
          obtain ⟨marked, hmarked, h⟩ := Except.bind_eq_ok.mp h
          exact Or.inl ⟨marker, lines'', marked, rfl, hmarker, hmarked, h⟩
        · next hmarker =>
          exact Or.inr ⟨by simpa [isMarker] using hmarker, h⟩
  · next hdone =>
    cases h
    exact Or.inl ⟨hdone, rfl, rfl⟩

/-- The lines that follow a hunk are no more than those it was read from. -/
theorem length_readHunk {headerLine : ℕ} {hunk hunk' : Hunk} {seenOld seenNew : ℕ} :
    ∀ {lines rest : List PatchLine},
      readHunk headerLine hunk seenOld seenNew lines = .ok (hunk', rest) →
        rest.length ≤ lines.length := by
  intro lines
  induction hn : lines.length using Nat.strong_induction_on generalizing hunk seenOld seenNew
    lines with
  | _ n ih =>
    intro rest h
    subst hn
    rcases readHunk_cases h with ⟨-, -, rfl⟩ | ⟨-, body, line, lines', rfl, -, hrest⟩
    · exact le_refl _
    · rcases hrest with ⟨marker, lines'', marked, rfl, -, -, hread⟩ | ⟨-, hread⟩
      · have hle := ih lines''.length (by simp only [List.length_cons]; omega) rfl hread
        simp only [List.length_cons]
        omega
      · have hle := ih lines'.length (by simp) rfl hread
        simp only [List.length_cons]
        omega

/-- A header of a second file. -/
def isFileHeader (line : List Char) : Bool :=
  "--- ".toList.isPrefixOf line || "+++ ".toList.isPrefixOf line || "diff ".toList.isPrefixOf line

/-- The loop over the hunks. -/
def parseHunks (lines : List PatchLine) : Except PatchFailure (List Hunk) :=
  match lines with
  | [] => .ok []
  | (header, index) :: lines =>
    if isFileHeader header then .error (.error .unsupportedHeader)
    else
      match parseHunkHeader header with
      | none => .error (.error (.invalidFormat (index + 1)))
      | some (oldStart, oldLen, newLen) =>
        match _hread : readHunk (index + 1) ⟨oldStart, oldLen, newLen, [], false, false⟩ 0 0
          lines with
        | .error e => .error e
        | .ok (hunk, rest) => (parseHunks rest).map (hunk :: ·)
termination_by lines.length
decreasing_by
  have hle := length_readHunk _hread
  simp only [List.length_cons]
  omega

/-- `patch.strip_suffix('\n').unwrap_or(patch)`. -/
def stripFinalNewline (patch : List Char) : List Char :=
  if patch.getLast? = some '\n' then patch.dropLast else patch

/-- `parse_patch`. -/
def parsePatch (patch : List Char) : Except PatchFailure (List Hunk) :=
  if patch = [] then .error (.error (.invalidFormat 1))
  else
    match ((stripFinalNewline patch).splitOn '\n').zipIdx with
    | [] => .error (.error (.invalidFormat 1))
    | (oldHeader, _) :: lines =>
      if trimEnd oldHeader ≠ "--- a/note.adoc".toList then .error (.error .unsupportedHeader)
      else
        match lines with
        | [] => .error (.error (.invalidFormat 2))
        | (newHeader, _) :: lines =>
          if trimEnd newHeader ≠ "+++ b/note.adoc".toList then .error (.error .unsupportedHeader)
          else
            match parseHunks lines with
            | .error e => .error e
            | .ok [] => .error (.error (.invalidFormat 3))
            | .ok (hunk :: hunks) => .ok (hunk :: hunks)

/-! ## Application -/

/-- The variables of the loop of `apply_note_patch` : `cursor` is the next line of the source
to copy. -/
structure Application where
  output : List (List Char)
  outputEndsWithoutNewline : Bool
  cursor : ℕ
  linesAdded : ℕ
  linesRemoved : ℕ
  deriving DecidableEq, Repr

/-- `lines[start..stop]`. -/
def sliceLines (lines : List (List Char)) (start stop : ℕ) :
    Except PatchFailure (List (List Char)) :=
  if start ≤ stop ∧ stop ≤ lines.length then .ok ((lines.drop start).take (stop - start))
  else .error .panicked

/-- One line of a hunk. -/
def applyLine (sourceLines : List (List Char)) (hunkNumber : ℕ) (state : Application) :
    HunkLine → Except PatchFailure Application
  | .context expected =>
    if sourceLines[state.cursor]? ≠ some expected then
      .error (.error (.hunkMismatch hunkNumber (state.cursor + 1)))
    else .ok { state with output := state.output ++ [expected], cursor := state.cursor + 1 }
  | .remove expected =>
    if sourceLines[state.cursor]? ≠ some expected then
      .error (.error (.hunkMismatch hunkNumber (state.cursor + 1)))
    else .ok { state with linesRemoved := state.linesRemoved + 1, cursor := state.cursor + 1 }
  | .add added =>
    .ok { state with linesAdded := state.linesAdded + 1, output := state.output ++ [added] }

/-- The index of the first line of the old range : an empty range is named by the line
before it. -/
def Hunk.firstLine? (hunk : Hunk) : Option ℕ :=
  if hunk.oldLen = 0 then some hunk.oldStart
  else if hunk.oldStart = 0 then none else some (hunk.oldStart - 1)

/-- The body of the loop over the hunks. -/
def applyHunk (sourceLines : List (List Char)) (hadTrailingNewline : Bool) (hunkNumber : ℕ)
    (state : Application) (hunk : Hunk) : Except PatchFailure Application := do
  match hunk.firstLine? with
  | none => throw (.error (.hunkOutOfRange hunkNumber))
  | some firstLine =>
    if firstLine < state.cursor then throw (.error (.hunkOutOfOrder hunkNumber))
    if sourceLines.length < firstLine + hunk.oldLen then
      throw (.error (.hunkOutOfRange hunkNumber))
    let copied ← sliceLines sourceLines state.cursor firstLine
    let state := { state with output := state.output ++ copied, cursor := firstLine }
    let coversSourceEnd := state.cursor + hunk.oldLen = sourceLines.length ∧ 0 < hunk.oldLen
    if hunk.oldEndsWithoutNewline ∧ ¬(coversSourceEnd ∧ ¬hadTrailingNewline) then
      throw (.error (.hunkMismatch hunkNumber sourceLines.length))
    if coversSourceEnd ∧ ¬hadTrailingNewline ∧ ¬hunk.oldEndsWithoutNewline then
      throw (.error (.hunkMismatch hunkNumber sourceLines.length))
    let state ← hunk.lines.foldlM (applyLine sourceLines hunkNumber) state
    return if state.cursor = sourceLines.length then
        { state with outputEndsWithoutNewline := hunk.newEndsWithoutNewline }
      else state

/-- The loop over the hunks, the first of which has the number `hunkNumber`. -/
def applyHunks (sourceLines : List (List Char)) (hadTrailingNewline : Bool) (hunkNumber : ℕ)
    (state : Application) : List Hunk → Except PatchFailure Application
  | [] => .ok state
  | hunk :: hunks => do
    let state ← applyHunk sourceLines hadTrailingNewline hunkNumber state hunk
    applyHunks sourceLines hadTrailingNewline (hunkNumber + 1) state hunks

/-- `apply_note_patch`. -/
def applyNotePatch (source patch : List Char) : Except PatchFailure NotePatchOutcome := do
  if notePolicy.maxPatchBytes < utf8Len patch then throw (.error .patchTooLarge)
  let hunks ← parsePatch patch
  if notePolicy.maxPatchHunks < hunks.length then throw (.error .tooManyHunks)
  let hadTrailingNewline : Bool := source.getLast? = some '\n'
  let sourceLines := TextLines.lines '\n' source
  let state ← applyHunks sourceLines hadTrailingNewline 1
    ⟨[], sourceLines = [] ∨ ¬hadTrailingNewline, 0, 0, 0⟩ hunks
  let rest ← sliceLines sourceLines state.cursor sourceLines.length
  let output := state.output ++ rest
  let joined := ['\n'].intercalate output
  return {
    source := if joined ≠ [] ∧ ¬state.outputEndsWithoutNewline then joined ++ ['\n'] else joined
    hunksApplied := hunks.length
    linesAdded := state.linesAdded
    linesRemoved := state.linesRemoved }

/-- An insertion into an empty source. -/
example : applyNotePatch []
    "--- a/note.adoc\n+++ b/note.adoc\n@@ -0,0 +1,2 @@\n+= Title\n+\n".toList =
    .ok ⟨"= Title\n\n".toList, 1, 2, 0⟩ := by decide +kernel

end Marginalis
