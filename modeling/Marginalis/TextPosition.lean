import Mathlib.Data.List.Basic
import Mathlib.Data.List.Nodup
import Marginalis.Diagnostics
import Marginalis.MathMacroState
import Marginalis.SortedPrefix
import Marginalis.Table

/-!
# Positions in a text

The server gives positions as offsets into the UTF-8 bytes of a text, and the editor counts
UTF-16 units. `utf8ByteOffsetToTextOffset` converts one offset, and the live preview converts all
the offsets of its annotations in one pass over the text, in ascending order.
`toLiveSpans_eq_filterMap` : this gives each offset what it gets alone, and the annotations that
are dropped are those whose own ranges say so.
-/

namespace Marginalis

open Table (orderBy)

namespace TextPosition

/-! ## One offset -/

/-- `for (const character of value)` : pairs of surrogates, and units of their own. -/
def characters : JsString → List JsString
  | [] => []
  | [unit] => [[unit]]
  | lead :: trail :: rest =>
    if JsText.isLead lead && JsText.isTrail trail then [lead, trail] :: characters rest
    else [lead] :: characters (trail :: rest)

/-- `encoder.encode(character).length`. -/
def byteLength (character : JsString) : ℕ := (MathMacroState.encode character).length

/-- The loop over the characters. -/
def offsetLoop (byteOffset consumedBytes consumedCodeUnits : ℕ) : List JsString → ℕ
  | [] => consumedCodeUnits
  | character :: rest =>
    if byteOffset < consumedBytes + byteLength character then consumedCodeUnits
    else
      offsetLoop byteOffset (consumedBytes + byteLength character)
        (consumedCodeUnits + character.length) rest

def utf8ByteOffsetToTextOffset (value : JsString) (byteOffset : ℕ) : ℕ :=
  offsetLoop byteOffset 0 0 (characters value)

/-! ## Ascending offsets -/

/-- The loop over the characters, with the offsets that have no result yet. The offsets left at
the end of the text get its length. -/
def offsetsLoop (consumedBytes consumedCodeUnits : ℕ) : List JsString → List ℕ → List ℕ
  | [], byteOffsets => byteOffsets.map fun _ => consumedCodeUnits
  | character :: rest, byteOffsets =>
    if byteOffsets = [] then []
    else
      let bound := consumedBytes + byteLength character
      ((byteOffsets.takeWhile fun offset => offset < bound).map fun _ => consumedCodeUnits) ++
        offsetsLoop bound (consumedCodeUnits + character.length) rest
          (byteOffsets.dropWhile fun offset => offset < bound)

def utf8ByteOffsetsToTextOffsets (value : JsString) (byteOffsets : List ℕ) : List ℕ :=
  offsetsLoop 0 0 (characters value) byteOffsets

variable {value : JsString} {rest : List JsString} {offsets : List ℕ} {bytes units offset : ℕ}

theorem offsetsLoop_eq_map (h : offsets.Pairwise (· ≤ ·)) :
    offsetsLoop bytes units rest offsets =
      offsets.map fun offset => offsetLoop offset bytes units rest := by
  induction rest generalizing bytes units offsets with
  | nil => rfl
  | cons character rest ih =>
    rw [offsetsLoop]
    split_ifs with hempty
    · rw [hempty, List.map_nil]
    -- The offsets before the end of the character come first, as the offsets are ascending.
    have hfalling : SortedPrefix.Falling
        (fun offset => decide (offset < bytes + byteLength character)) offsets :=
      SortedPrefix.falling_of_sorted h fun a b hab hb => by
        rw [decide_eq_true_eq] at hb ⊢
        omega
    dsimp only
    rw [ih (h.sublist (List.dropWhile_sublist _))]
    conv_rhs => rw [← List.takeWhile_append_dropWhile
      (p := fun offset => decide (offset < bytes + byteLength character)) (l := offsets)]
    rw [List.map_append, SortedPrefix.takeWhile_eq_filter hfalling,
      SortedPrefix.dropWhile_eq_filter hfalling]
    congr 1
    · refine List.map_congr_left fun offset hoffset => ?_
      have hlt := of_decide_eq_true (List.mem_filter.mp hoffset).2
      rw [offsetLoop, if_pos hlt]
    · refine List.map_congr_left fun offset hoffset => ?_
      have hge := (List.mem_filter.mp hoffset).2
      rw [Bool.not_eq_true', decide_eq_false_iff_not] at hge
      rw [offsetLoop, if_neg hge]

/-- The batch conversion is the conversion of each offset. -/
theorem utf8ByteOffsetsToTextOffsets_eq_map (h : offsets.Pairwise (· ≤ ·)) :
    utf8ByteOffsetsToTextOffsets value offsets =
      offsets.map (utf8ByteOffsetToTextOffset value) :=
  offsetsLoop_eq_map h

theorem flatten_characters (value : JsString) : (characters value).flatten = value := by
  induction value using characters.induct with
  | case1 => rfl
  | case2 unit => rfl
  | case3 lead trail rest hpair ih => rw [characters, if_pos hpair, List.flatten_cons, ih]; rfl
  | case4 lead trail rest hpair ih => rw [characters, if_neg hpair, List.flatten_cons, ih]; rfl

theorem offsetLoop_le : offsetLoop offset bytes units rest ≤ units + rest.flatten.length := by
  induction rest generalizing bytes units with
  | nil => exact Nat.le_add_right _ _
  | cons character rest ih =>
    rw [offsetLoop]
    have hle := @ih (bytes + byteLength character) (units + character.length)
    rw [List.flatten_cons, List.length_append]
    split_ifs <;> omega

/-- A converted offset lies in the text. -/
theorem utf8ByteOffsetToTextOffset_le (value : JsString) (offset : ℕ) :
    utf8ByteOffsetToTextOffset value offset ≤ value.length := by
  have hle : offsetLoop offset 0 0 (characters value) ≤ 0 + (characters value).flatten.length :=
    offsetLoop_le
  rwa [flatten_characters, Nat.zero_add] at hle

end TextPosition

/-! ## The annotations of a source -/

/-- What an annotation of the source is. -/
inductive NoteSourceSpanKind
  | documentTitle | heading | documentAttribute | anchor | strong | emphasis | highlight
  | subscript | superscript | monospace | link | crossReference | citation | inlineMath
  | mathBlock | sourceBlock | literalBlock | quote | exampleBlock | admonition | table | listItem
  deriving DecidableEq, Repr

/-- An annotation as the server sends it. -/
structure NoteSourceSpan where
  kind : NoteSourceSpanKind
  span : Utf8ByteSpan
  contentSpan : Option Utf8ByteSpan
  markerSpans : Option (List Utf8ByteSpan)
  level : Option ℕ
  deriving DecidableEq, Repr

/-- A range of UTF-16 units. -/
structure TextRange where
  start : ℕ
  stop : ℕ
  deriving DecidableEq, Repr

/-- An annotation in the editor. -/
structure LiveSpan where
  kind : NoteSourceSpanKind
  range : TextRange
  content : TextRange
  markers : List TextRange
  level : Option ℕ
  deriving DecidableEq, Repr

namespace LivePreview

open TextPosition

/-- `collect`. -/
def collect (span : Utf8ByteSpan) : List ℕ := [span.start, span.stop]

/-- The offsets of an annotation, in the order they are collected. -/
def spanOffsets (span : NoteSourceSpan) : List ℕ :=
  collect span.span ++ (span.contentSpan.map collect).getD [] ++
    (span.markerSpans.getD []).flatMap collect

/-- The offsets in ascending order, each with its place. -/
def order (byteOffsets : List ℕ) : List (ℕ × ℕ) := orderBy Prod.fst byteOffsets.zipIdx

/-- The converted offsets, each put back in its place. -/
def textOffsets (source : JsString) (byteOffsets : List ℕ) : List ℕ :=
  let sortedTextOffsets := utf8ByteOffsetsToTextOffsets source ((order byteOffsets).map Prod.fst)
  ((order byteOffsets).zip sortedTextOffsets).foldl
    (fun textOffsets item => textOffsets.set item.1.2 item.2) (List.replicate byteOffsets.length 0)

/-- `take`, twice : the next two offsets, and those after them. -/
def takeRange : List ℕ → TextRange × List ℕ
  | start :: stop :: rest => (⟨start, stop⟩, rest)
  | rest => (⟨0, 0⟩, rest)

/-- A range for each marker. -/
def takeRanges : List Utf8ByteSpan → List ℕ → List TextRange × List ℕ
  | [], offsets => ([], offsets)
  | _ :: markers, offsets =>
    let (range, offsets) := takeRange offsets
    let (ranges, offsets) := takeRanges markers offsets
    (range :: ranges, offsets)

/-- The range of the content, or that of the annotation when it has none of its own. -/
def takeContent (span : NoteSourceSpan) (range : TextRange) (offsets : List ℕ) :
    TextRange × List ℕ :=
  match span.contentSpan with
  | some _ => takeRange offsets
  | none => (range, offsets)

/-- The annotation with its ranges, unless it is dropped. -/
def keepSpan (length : ℕ) (span : NoteSourceSpan) (range content : TextRange)
    (markers : List TextRange) : Option LiveSpan :=
  if range.stop ≤ range.start ∨ length < range.stop then none
  else if content.stop < content.start then none
  else some {
    kind := span.kind
    range := range
    content := content
    markers := markers.filter fun marker => marker.start < marker.stop ∧ marker.stop ≤ length
    level := span.level }

/-- The loop over the annotations, with the offsets not taken yet. -/
def readSpans (length : ℕ) : List NoteSourceSpan → List ℕ → List LiveSpan
  | [], _ => []
  | span :: spans, offsets =>
    let (range, offsets) := takeRange offsets
    let (content, offsets) := takeContent span range offsets
    let (markers, offsets) := takeRanges (span.markerSpans.getD []) offsets
    (keepSpan length span range content markers).toList ++ readSpans length spans offsets

def toLiveSpans (source : JsString) (spans : List NoteSourceSpan) : List LiveSpan :=
  readSpans source.length spans (textOffsets source (spans.flatMap spanOffsets))

/-! ## One by one -/

/-- A range converted on its own. -/
def convertRange (source : JsString) (span : Utf8ByteSpan) : TextRange where
  start := utf8ByteOffsetToTextOffset source span.start
  stop := utf8ByteOffsetToTextOffset source span.stop

/-- An annotation converted on its own : it is dropped when its range is empty or reversed, or
the range of its content is reversed, and so is a marker whose range is empty or reversed. -/
def convertSpan (source : JsString) (span : NoteSourceSpan) : Option LiveSpan :=
  let range := convertRange source span.span
  let content := (span.contentSpan.map (convertRange source)).getD range
  if range.stop ≤ range.start then none
  else if content.stop < content.start then none
  else some {
    kind := span.kind
    range := range
    content := content
    markers := ((span.markerSpans.getD []).map (convertRange source)).filter fun marker =>
      marker.start < marker.stop
    level := span.level }

variable {source : JsString} {span : NoteSourceSpan} {spans : List NoteSourceSpan}
  {markers : List Utf8ByteSpan} {rest byteOffsets : List ℕ}

/-! ## The converted offsets -/

/-- Values put in the places of a list, one for each place that occurs. -/
theorem getElem?_foldl_set {f : ℕ → ℕ} {items : List ((ℕ × ℕ) × ℕ)}
    (hitems : ∀ item ∈ items, item.2 = f item.1.2) (l : List ℕ) (i : ℕ) :
    (items.foldl (fun l item => l.set item.1.2 item.2) l)[i]? =
      if i ∈ items.map (fun item => item.1.2) ∧ i < l.length then some (f i) else l[i]? := by
  induction items generalizing l with
  | nil => simp
  | cons item items ih =>
    rw [List.foldl_cons, ih (fun item hitem => hitems item (List.mem_cons_of_mem _ hitem)),
      List.length_set, List.getElem?_set, hitems item (List.mem_cons_self ..), List.map_cons]
    by_cases hrest : i ∈ items.map fun item => item.1.2
    · by_cases hlt : i < l.length
      · simp [hrest, hlt]
      · simp [hlt]
        omega
    · by_cases hhere : item.1.2 = i
      · subst hhere
        by_cases hlt : item.1.2 < l.length
        · simp [hlt]
        · simp [hlt]
      · simp [hrest, hhere, Ne.symm hhere]

/-- Every collected offset is converted as on its own. -/
theorem textOffsets_eq_map (source : JsString) (byteOffsets : List ℕ) :
    textOffsets source byteOffsets = byteOffsets.map (utf8ByteOffsetToTextOffset source) := by
  have hsorted : ((order byteOffsets).map Prod.fst).Pairwise (· ≤ ·) :=
    List.pairwise_map.mpr Table.pairwise_orderBy
  have hperm : (order byteOffsets).Perm byteOffsets.zipIdx := Table.orderBy_perm
  have hzip : (order byteOffsets).zip (((order byteOffsets).map Prod.fst).map
      (utf8ByteOffsetToTextOffset source)) =
      (order byteOffsets).map fun item => (item, utf8ByteOffsetToTextOffset source item.1) := by
    have hzip := List.zip_map' (f := id) (g := fun item : ℕ × ℕ =>
      utf8ByteOffsetToTextOffset source item.1) (l := order byteOffsets)
    rw [List.map_id] at hzip
    rw [List.map_map]
    exact hzip
  have hplace : ∀ item ∈ order byteOffsets, byteOffsets[item.2]? = some item.1 := fun item hitem =>
    List.mem_zipIdx_iff_getElem?.mp (hperm.mem_iff.mp hitem)
  have hplaces : ∀ i, i ∈ (order byteOffsets).map Prod.snd ↔ i < byteOffsets.length := by
    intro i
    rw [(hperm.map Prod.snd).mem_iff, List.zipIdx_map_snd]
    simp
  unfold textOffsets
  dsimp only
  rw [utf8ByteOffsetsToTextOffsets_eq_map hsorted, hzip]
  refine List.ext_getElem? fun i => ?_
  rw [getElem?_foldl_set (f := fun i => utf8ByteOffsetToTextOffset source (byteOffsets.getD i 0))]
  · rw [List.map_map, List.getElem?_map, List.length_replicate]
    have hcomp : ((fun item : (ℕ × ℕ) × ℕ => item.1.2) ∘
        fun item : ℕ × ℕ => (item, utf8ByteOffsetToTextOffset source item.1)) = Prod.snd := rfl
    simp only [hcomp, hplaces, and_self]
    split_ifs with hi
    · simp [hi]
    · simp [hi]
  · intro item hitem
    obtain ⟨pair, hpair, rfl⟩ := List.mem_map.mp hitem
    simp [List.getD_eq_getElem?_getD, hplace pair hpair]

/-! ## The annotations -/

theorem takeRange_collect (f : ℕ → ℕ) (span : Utf8ByteSpan) (rest : List ℕ) :
    takeRange ((collect span).map f ++ rest) = (⟨f span.start, f span.stop⟩, rest) := rfl

theorem takeRanges_collect (source : JsString) (markers : List Utf8ByteSpan) (rest : List ℕ) :
    takeRanges markers
        ((markers.flatMap collect).map (utf8ByteOffsetToTextOffset source) ++ rest) =
      (markers.map (convertRange source), rest) := by
  induction markers with
  | nil => rfl
  | cons marker markers ih =>
    rw [List.flatMap_cons, List.map_append, List.append_assoc, takeRanges, takeRange_collect]
    dsimp only
    rw [ih]
    rfl

theorem takeContent_collect (source : JsString) (span : NoteSourceSpan) (range : TextRange)
    (rest : List ℕ) :
    takeContent span range
        ((((span.contentSpan.map collect).getD []).map (utf8ByteOffsetToTextOffset source)) ++
          rest) =
      ((span.contentSpan.map (convertRange source)).getD range, rest) := by
  unfold takeContent
  cases span.contentSpan with
  | none => rfl
  | some content => exact takeRange_collect _ content rest

/-- With converted ranges nothing lies behind the end of the text. -/
theorem keepSpan_convert (source : JsString) (span : NoteSourceSpan) :
    keepSpan source.length span (convertRange source span.span)
        ((span.contentSpan.map (convertRange source)).getD (convertRange source span.span))
        ((span.markerSpans.getD []).map (convertRange source)) =
      convertSpan source span := by
  have hrange : ∀ span : Utf8ByteSpan, (convertRange source span).stop ≤ source.length :=
    fun span => utf8ByteOffsetToTextOffset_le source span.stop
  have hmarkers : ((span.markerSpans.getD []).map (convertRange source)).filter (fun marker =>
      marker.start < marker.stop ∧ marker.stop ≤ source.length) =
      ((span.markerSpans.getD []).map (convertRange source)).filter fun marker =>
        marker.start < marker.stop := by
    refine List.filter_congr fun marker hmarker => ?_
    obtain ⟨span, -, rfl⟩ := List.mem_map.mp hmarker
    simp [hrange span]
  unfold keepSpan convertSpan
  simp only [not_lt.mpr (hrange span.span), or_false, hmarkers]

theorem readSpans_convert (source : JsString) (spans : List NoteSourceSpan) :
    readSpans source.length spans
        ((spans.flatMap spanOffsets).map (utf8ByteOffsetToTextOffset source)) =
      spans.filterMap (convertSpan source) := by
  induction spans with
  | nil => rfl
  | cons span spans ih =>
    rw [List.flatMap_cons, List.map_append, spanOffsets, List.map_append, List.map_append,
      List.append_assoc, List.append_assoc, readSpans, takeRange_collect]
    dsimp only
    rw [takeContent_collect]
    dsimp only
    rw [takeRanges_collect]
    dsimp only
    rw [ih]
    have hkeep := keepSpan_convert source span
    rw [convertRange] at hkeep
    rw [hkeep, List.filterMap_cons]
    cases convertSpan source span <;> rfl

/-- The offsets converted in one pass are those converted one by one, and so are the ranges of
the annotations : dropped are those whose own ranges are empty or reversed. -/
theorem toLiveSpans_eq_filterMap (source : JsString) :
    (∀ byteOffsets : List ℕ, byteOffsets.Pairwise (· ≤ ·) →
      utf8ByteOffsetsToTextOffsets source byteOffsets =
        byteOffsets.map (utf8ByteOffsetToTextOffset source)) ∧
    ∀ spans, toLiveSpans source spans = spans.filterMap (convertSpan source) := by
  refine ⟨fun _ => utf8ByteOffsetsToTextOffsets_eq_map, fun spans => ?_⟩
  rw [toLiveSpans, textOffsets_eq_map, readSpans_convert]

end LivePreview

end Marginalis
