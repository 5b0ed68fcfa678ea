import Mathlib.Data.List.Basic
import Marginalis.FirstAppearances
import Marginalis.NoteApplication

/-!
# Citations

A note cites items of its owner's library by their keys. A citation is shown inline, its keys as
links to the list of references at the end of the note, which the rendering adds for the items
that the note does not list itself. The numeric style numbers the cited items by their first
appearance, and the inline labels, the list and the rendering each go over the citations on their
own (`citation_numbering_consistent`). The commands that write a note ask the same resolution for
its diagnostics (`citationDiagnostics_eq`).
-/

namespace Marginalis

open FirstAppearances

/-! ## Styles -/

inductive CitationStyle
  | authorYear
  | numeric
  deriving DecidableEq

def unknownYear : String := "n.d."

def etAlThreshold : ℕ := 3

/-- A name of a CSL-JSON document. -/
structure PersonName where
  family : String
  given : Option String

/-- `non_empty`. -/
def nonEmpty (value : String) : Option String :=
  if trim value.toList = [] then none else some (String.ofList (trim value.toList))

def personName (value : Json) : Option PersonName :=
  match value.getStr "literal" with
  | some literal => (nonEmpty literal).map fun family => ⟨family, none⟩
  | none => do
    let family ← (value.getStr "family").bind nonEmpty
    return ⟨family, (value.getStr "given").bind nonEmpty⟩

/-- The authors, or the editors when there is none. -/
def names (csl : Json) : List PersonName :=
  (["author", "editor"].findSome? fun field => do
    let entries ← (csl.get field).bind Json.asArray
    let names := entries.filterMap personName
    if names.isEmpty then none else some names).getD []

def shortNames : List PersonName → String
  | [only] => only.family
  | [first, second] => first.family ++ " & " ++ second.family
  | names =>
    match names.head?, names.getLast? with
    | some first, some last =>
      if etAlThreshold < names.length then first.family ++ " et al."
      else String.intercalate ", " (names.dropLast.map PersonName.family) ++ " & " ++ last.family
    | _, _ => ""

/-- `given.split([' ', '-', '.'])`, the first letter of each part. -/
def initials (given : String) : String :=
  String.intercalate " " ((given.toList.splitOnP fun c => c = ' ' || c = '-' || c = '.').filterMap
    fun part => part.head?.map fun initial => String.singleton initial ++ ".")

def fullName (name : PersonName) : String :=
  match name.given with
  | some given => name.family ++ ", " ++ initials given
  | none => name.family

def fullNames (names : List PersonName) : String :=
  match names.map fullName with
  | [only] => only
  | formatted =>
    match formatted.getLast? with
    | some last => String.intercalate ", " formatted.dropLast ++ ", & " ++ last
    | none => ""

def yearPart : Json → Option String
  | .number literal => some literal
  | .string text => nonEmpty text
  | _ => none

def year (csl : Json) : String :=
  match csl.get "issued" with
  | none => unknownYear
  | some issued =>
    let fromParts := do
      let parts ← (issued.get "date-parts").bind Json.asArray
      let part ← parts.head?.bind Json.asArray
      part.head?.bind yearPart
    (fromParts.or ((issued.getStr "literal").bind nonEmpty)).getD unknownYear

def stringField (csl : Json) (name : String) : Option String := (csl.getStr name).bind nonEmpty

def title (csl : Json) : Option String := stringField csl "title"

def sourceLocator (csl : Json) : Option String :=
  match stringField csl "DOI" with
  | some doi => some ("https://doi.org/" ++ doi)
  | none => stringField csl "URL"

def endedWithPeriod (part : String) : String :=
  if part.toList.getLast? = some '.' then part else part ++ "."

/-- The stored document, or nothing when it cannot be read. -/
def parsed {json : JsonCodec} (item : BibliographyItem json) : Json :=
  (json.parse item.cslJson).getD .null

namespace CitationStyle

def brackets : CitationStyle → String × String
  | authorYear => ("(", ")")
  | numeric => ("[", "]")

def keySeparator : CitationStyle → String
  | authorYear => "; "
  | numeric => ", "

def inlineLabel {json : JsonCodec} (style : CitationStyle) (item : BibliographyItem json)
    (number : ℕ) : String :=
  if style = numeric then toString number
  else
    let csl := parsed item
    if (names csl).isEmpty then
      match title csl with
      | some title => title ++ " " ++ year csl
      | none => item.citationKey ++ " " ++ year csl
    else shortNames (names csl) ++ " " ++ year csl

/-- `u32::try_from`. -/
def entryNumber : CitationStyle → ℕ → Option ℕ
  | authorYear, _ => none
  | numeric, number => if number < 2 ^ 32 then some number else none

def entryText {json : JsonCodec} (item : BibliographyItem json) : String :=
  let csl := parsed item
  let parts := (if (names csl).isEmpty then [] else [fullNames (names csl)]) ++
    ["(" ++ year csl ++ ")"] ++ (title csl).toList ++ (stringField csl "container-title").toList ++
    (stringField csl "publisher").toList ++ (sourceLocator csl).toList
  let parts := if parts.length = 1 then item.citationKey :: parts else parts
  String.intercalate " " (parts.map endedWithPeriod)

end CitationStyle

/-! ## Resolution -/

structure NoteCitationSegment where
  text : String
  anchor : Option String
  deriving DecidableEq

structure NoteCitationResolution where
  citationIndex : ℕ
  segments : List NoteCitationSegment
  deriving DecidableEq

structure NoteBibliographyEntry where
  citationKey : String
  text : String
  number : Option ℕ
  deriving DecidableEq

structure ResolvedCitations where
  resolutions : List NoteCitationResolution
  entries : List NoteBibliographyEntry
  diagnostics : List NoteAdvisoryDiagnostic
  deriving DecidableEq

section Resolution

variable {json : JsonCodec} (items : List (BibliographyItem json))

/-- The map of the items by their keys. A later item takes the place of an earlier one. -/
def itemByKey (key : String) : Option (BibliographyItem json) :=
  items.reverse.find? fun item => item.citationKey = key

def isResolved (key : String) : Bool := (itemByKey items key).isSome

/-- The segment of a key. `numbers[key]` panics when there is no number. -/
def keySegment (numbers : List (String × ℕ)) (style : CitationStyle) (key : String) :
    Option NoteCitationSegment :=
  match itemByKey items key with
  | some item => (numbers.lookup key).map fun number => ⟨style.inlineLabel item number, some key⟩
  | none => some ⟨key, none⟩

/-- The loop over the keys of a citation, from a position on. -/
def keySegments (numbers : List (String × ℕ)) (style : CitationStyle) (position : ℕ) :
    List String → Option (List NoteCitationSegment)
  | [] => some []
  | key :: keys => do
    let segment ← keySegment items numbers style key
    let rest ← keySegments numbers style (position + 1) keys
    return (if 0 < position then [⟨style.keySeparator, none⟩] else []) ++ segment :: rest

def citationSegments (query : NoteCitationQuery) (numbers : List (String × ℕ))
    (style : CitationStyle) : Option (List NoteCitationSegment) := do
  let segments ← keySegments items numbers style 0 query.keys
  let closing := match query.locator with
    | some locator => ", " ++ locator ++ style.brackets.2
    | none => style.brackets.2
  return ⟨style.brackets.1, none⟩ :: segments ++ [⟨closing, none⟩]

/-- The entry of a key, if the library has it. -/
def bibliographyEntry (numbers : List (String × ℕ)) (style : CitationStyle) (key : String) :
    Option (Option NoteBibliographyEntry) :=
  match itemByKey items key with
  | none => some none
  | some item => (numbers.lookup key).map fun number =>
      some ⟨key, CitationStyle.entryText item, style.entryNumber number⟩

/-- `citation_resolutions`, with the items of the library. It has no result when it panics. -/
def resolveCitations (queries : List NoteCitationQuery) (style : CitationStyle) :
    Option ResolvedCitations :=
  if queries = [] then some ⟨[], [], []⟩
  else do
    let citedKeys := firstAppearances (queries.flatMap NoteCitationQuery.keys)
    let numbers := numbered (citedKeys.filter (isResolved items))
    let resolutions ← queries.mapM fun query => do
      let segments ← citationSegments items query numbers style
      return (⟨query.citationIndex, segments⟩ : NoteCitationResolution)
    let entries ← citedKeys.mapM (bibliographyEntry items numbers style)
    let unknownKeys := citedKeys.filter fun key => !isResolved items key
    return ⟨resolutions, entries.reduceOption, unknownCitationDiagnostics queries unknownKeys⟩

end Resolution

/-- `citation_resolutions`, over the library of the owner of the note. -/
def Database.citationResolutions (db : Database) (app : NoteApplication) (owner : PrincipalRef)
    (queries : List NoteCitationQuery) (style : CitationStyle) :
    Except NoteUseCaseError (Option ResolvedCitations) := do
  if queries = [] then return some ⟨[], [], []⟩
  let items ← (db.itemsByCitationKeys app.json owner
    (firstAppearances (queries.flatMap NoteCitationQuery.keys))).mapError
      StorageError.toOwnerResourceError
  return resolveCitations items queries style

/-! ## Rendering -/

structure GeneratedBibliographyEntry where
  id : String
  text : String
  number : Option ℕ
  deriving DecidableEq

structure GeneratedBibliography where
  title : String
  entries : List GeneratedBibliographyEntry
  deriving DecidableEq

def generatedBibliographyTitle : String := "参考文献"

def numbersCountUpFromOne (entries : List NoteBibliographyEntry) : Bool :=
  entries.zipIdx.all fun entry =>
    decide (entry.2 + 1 < 2 ^ 32) && entry.1.number = some (entry.2 + 1)

def generatedBibliography (defined : List String) (entries : List NoteBibliographyEntry) :
    Option GeneratedBibliography :=
  let remaining := entries.filter fun entry => !defined.contains entry.citationKey
  if remaining.isEmpty then none
  else
    let isNumbered := numbersCountUpFromOne remaining
    some
      { title := generatedBibliographyTitle
        entries := remaining.map fun entry =>
          ⟨entry.citationKey, entry.text, if isNumbered then entry.number else none⟩ }

/-! ## Numbers -/

section Numbers

variable {json : JsonCodec} {items : List (BibliographyItem json)}
  {queries : List NoteCitationQuery} {style : CitationStyle} {key : String}

theorem isResolved_iff :
    isResolved items key = true ↔ ∃ item ∈ items, item.citationKey = key := by
  simp [isResolved, itemByKey]

/-- The resolved keys of the citations, by their first appearance. -/
def resolvedKeys (items : List (BibliographyItem json)) (queries : List NoteCitationQuery) :
    List String :=
  (firstAppearances (queries.flatMap NoteCitationQuery.keys)).filter (isResolved items)

/-- The number of a resolved key. -/
def keyNumber (items : List (BibliographyItem json)) (queries : List NoteCitationQuery)
    (key : String) : ℕ :=
  (resolvedKeys items queries).idxOf key + 1

theorem mem_resolvedKeys : key ∈ resolvedKeys items queries ↔
    key ∈ queries.flatMap NoteCitationQuery.keys ∧ isResolved items key = true := by
  rw [resolvedKeys, List.mem_filter, mem_firstAppearances]

theorem nodup_resolvedKeys : (resolvedKeys items queries).Nodup :=
  (nodup_firstAppearances _).filter _

theorem keyNumber_getElem {i : ℕ} (h : i < (resolvedKeys items queries).length) :
    keyNumber items queries ((resolvedKeys items queries)[i]) = i + 1 := by
  rw [keyNumber, nodup_resolvedKeys.idxOf_getElem]

theorem keyNumber_lt_iff {first second : String} (hfirst : first ∈ resolvedKeys items queries)
    (hsecond : second ∈ resolvedKeys items queries) :
    keyNumber items queries first < keyNumber items queries second ↔
      (queries.flatMap NoteCitationQuery.keys).idxOf first <
        (queries.flatMap NoteCitationQuery.keys).idxOf second := by
  have horder : (resolvedKeys items queries).Pairwise fun first second =>
      (queries.flatMap NoteCitationQuery.keys).idxOf first <
        (queries.flatMap NoteCitationQuery.keys).idxOf second :=
    (pairwise_firstAppearances _).filter _
  rw [← idxOf_lt_iff horder hfirst hsecond, keyNumber, keyNumber]
  omega

theorem lookup_number (h : key ∈ resolvedKeys items queries) :
    (numbered (resolvedKeys items queries)).lookup key = some (keyNumber items queries key) :=
  lookup_numbered h

/-! ## Segments -/

/-- A key as it is shown under its number : a link to its own entry, or its text. -/
def shownKey (items : List (BibliographyItem json)) (style : CitationStyle) (number : String → ℕ)
    (key : String) : NoteCitationSegment :=
  match itemByKey items key with
  | some item => ⟨style.inlineLabel item (number key), some key⟩
  | none => ⟨key, none⟩

/-- A citation as it is shown : its keys with separators between them, in brackets. -/
def shownCitation (items : List (BibliographyItem json)) (style : CitationStyle)
    (number : String → ℕ) (query : NoteCitationQuery) : NoteCitationResolution where
  citationIndex := query.citationIndex
  segments :=
    ⟨style.brackets.1, none⟩ ::
      (query.keys.map (shownKey items style number)).intersperse ⟨style.keySeparator, none⟩ ++
      [⟨(query.locator.elim "" fun locator => ", " ++ locator) ++ style.brackets.2, none⟩]

theorem keySegment_eq (h : key ∈ queries.flatMap NoteCitationQuery.keys) :
    keySegment items (numbered (resolvedKeys items queries)) style key =
      some (shownKey items style (keyNumber items queries) key) := by
  rw [keySegment, shownKey]
  cases hitem : itemByKey items key with
  | none => rfl
  | some item =>
    have hmem := mem_resolvedKeys.mpr ⟨h, by rw [isResolved, hitem]; rfl⟩
    simp only
    rw [lookup_number hmem]
    rfl

theorem intersperse_cons {α : Type} (separator a : α) (l : List α) :
    (a :: l).intersperse separator = a :: l.flatMap fun b => [separator, b] := by
  induction l generalizing a with
  | nil => rfl
  | cons b l ih => rw [List.intersperse_cons_cons, ih, List.flatMap_cons]; rfl

theorem keySegments_succ {keys : List String}
    (h : ∀ key ∈ keys, key ∈ queries.flatMap NoteCitationQuery.keys) (position : ℕ) :
    keySegments items (numbered (resolvedKeys items queries)) style (position + 1) keys =
      some ((keys.map (shownKey items style (keyNumber items queries))).flatMap
        fun segment => [⟨style.keySeparator, none⟩, segment]) := by
  induction keys generalizing position with
  | nil => rfl
  | cons key keys ih =>
    rw [keySegments, keySegment_eq (h key List.mem_cons_self),
      ih (fun key hkey => h key (List.mem_cons_of_mem _ hkey))]
    simp

theorem keySegments_zero {keys : List String}
    (h : ∀ key ∈ keys, key ∈ queries.flatMap NoteCitationQuery.keys) :
    keySegments items (numbered (resolvedKeys items queries)) style 0 keys =
      some ((keys.map (shownKey items style (keyNumber items queries))).intersperse
        ⟨style.keySeparator, none⟩) := by
  cases keys with
  | nil => rfl
  | cons key keys =>
    rw [keySegments, keySegment_eq (h key List.mem_cons_self),
      keySegments_succ fun key hkey => h key (List.mem_cons_of_mem _ hkey), List.map_cons,
      intersperse_cons]
    rfl

theorem citationSegments_eq {query : NoteCitationQuery} (h : query ∈ queries) :
    citationSegments items query (numbered (resolvedKeys items queries)) style =
      some (shownCitation items style (keyNumber items queries) query).segments := by
  rw [citationSegments, keySegments_zero fun key hkey => List.mem_flatMap.mpr ⟨query, h, hkey⟩]
  cases hlocator : query.locator with
  | none => simp [shownCitation, hlocator]
  | some locator => simp [shownCitation, hlocator, String.append_assoc]

/-! ## The list of references -/

/-- The entry of a resolved key. -/
def listedEntry (items : List (BibliographyItem json)) (style : CitationStyle)
    (number : String → ℕ) (key : String) : Option NoteBibliographyEntry :=
  (itemByKey items key).map fun item =>
    ⟨key, CitationStyle.entryText item, style.entryNumber (number key)⟩

theorem bibliographyEntry_eq (h : key ∈ queries.flatMap NoteCitationQuery.keys) :
    bibliographyEntry items (numbered (resolvedKeys items queries)) style key =
      some (listedEntry items style (keyNumber items queries) key) := by
  rw [bibliographyEntry, listedEntry]
  cases hitem : itemByKey items key with
  | none => rfl
  | some item =>
    have hmem := mem_resolvedKeys.mpr ⟨h, by rw [isResolved, hitem]; rfl⟩
    simp only
    rw [lookup_number hmem]
    rfl

/-- The entries are those of the resolved keys, in their order. -/
theorem map_citationKey_entries (number : String → ℕ) (keys : List String) :
    ((keys.map (listedEntry items style number)).reduceOption).map
        NoteBibliographyEntry.citationKey = keys.filter (isResolved items) := by
  induction keys with
  | nil => rfl
  | cons key keys ih =>
    rw [List.map_cons, listedEntry, List.filter_cons, isResolved]
    cases hitem : itemByKey items key with
    | none => simpa using ih
    | some item => simpa using ih

theorem mem_entries {number : String → ℕ} {keys : List String} {entry : NoteBibliographyEntry}
    (h : entry ∈ (keys.map (listedEntry items style number)).reduceOption) :
    ∃ item, itemByKey items entry.citationKey = some item ∧
      entry.text = CitationStyle.entryText item ∧
      entry.number = style.entryNumber (number entry.citationKey) := by
  rw [List.reduceOption_mem_iff] at h
  obtain ⟨key, -, hentry⟩ := List.mem_map.mp h
  obtain ⟨item, hitem, rfl⟩ := Option.map_eq_some_iff.mp hentry
  exact ⟨item, hitem, rfl, rfl⟩

/-- The resolution has a result : no number is missing. -/
theorem resolveCitations_eq :
    resolveCitations items queries style =
      some ⟨queries.map (shownCitation items style (keyNumber items queries)),
        ((firstAppearances (queries.flatMap NoteCitationQuery.keys)).map
          (listedEntry items style (keyNumber items queries))).reduceOption,
        unknownCitationDiagnostics queries
          ((firstAppearances (queries.flatMap NoteCitationQuery.keys)).filter
            fun key => !isResolved items key)⟩ := by
  by_cases hempty : queries = []
  · subst hempty
    rfl
  · have hresolutions : (queries.mapM fun query => do
        let segments ← citationSegments items query (numbered (resolvedKeys items queries)) style
        return (⟨query.citationIndex, segments⟩ : NoteCitationResolution)) =
        some (queries.map (shownCitation items style (keyNumber items queries))) :=
      Option.mapM_eq_some fun query hquery => by rw [citationSegments_eq hquery]; rfl
    have hentries : (firstAppearances (queries.flatMap NoteCitationQuery.keys)).mapM
        (bibliographyEntry items (numbered (resolvedKeys items queries)) style) =
        some ((firstAppearances (queries.flatMap NoteCitationQuery.keys)).map
          (listedEntry items style (keyNumber items queries))) :=
      Option.mapM_eq_some fun key hkey => bibliographyEntry_eq (mem_firstAppearances.mp hkey)
    rw [resolvedKeys] at hresolutions hentries
    rw [resolveCitations, if_neg hempty]
    simp only
    rw [hresolutions, hentries]
    rfl

/-- The diagnostics of the resolution are those that the writing of a note asks for. -/
theorem citationDiagnostics_eq (db : Database) (app : NoteApplication) (owner : PrincipalRef)
    (queries : List NoteCitationQuery) (style : CitationStyle) :
    db.citationDiagnostics app owner queries =
      (db.citationResolutions app owner queries style).map fun found =>
        (found.map ResolvedCitations.diagnostics).getD [] := by
  rw [Database.citationDiagnostics, Database.citationResolutions]
  by_cases hempty : queries = []
  · rw [if_pos hempty, if_pos hempty]
    rfl
  · rw [if_neg hempty, if_neg hempty, ← firstAppearances_eq_eraseDups]
    simp only
    cases db.itemsByCitationKeys app.json owner
        (firstAppearances (queries.flatMap NoteCitationQuery.keys)) with
    | error failure => rfl
    | ok items =>
      have hunknown : ∀ key, decide (¬∃ item ∈ items, item.citationKey = key) =
          !isResolved items key := by
        intro key
        rw [decide_not]
        exact congrArg _ (Bool.eq_iff_iff.mpr (by rw [isResolved_iff, decide_eq_true_iff]))
      simp only [Except.mapError, Bind.bind, Except.bind, pure, Except.pure, Except.map,
        resolveCitations_eq, Option.map_some, Option.getD_some, hunknown]

/-! ## The generated list -/

theorem numbersCountUpFromOne_getElem {entries : List NoteBibliographyEntry}
    (h : numbersCountUpFromOne entries = true) {i : ℕ} (hi : i < entries.length) :
    entries[i].number = some (i + 1) := by
  have hall := List.all_eq_true.mp h (entries[i], i) (List.mem_zipIdx_iff_getElem?.mpr
    (List.getElem?_eq_getElem hi))
  rw [Bool.and_eq_true] at hall
  simpa using hall.2

/-- A list with numbers has the numbers from one on, which are those of its entries. -/
theorem generatedBibliography_numbers {defined : List String}
    {entries : List NoteBibliographyEntry} {generated : GeneratedBibliography}
    (h : generatedBibliography defined entries = some generated) :
    (generated.entries.map fun entry => (entry.id, entry.text)) =
        (entries.filter fun entry => !defined.contains entry.citationKey).map
          (fun entry => (entry.citationKey, entry.text)) ∧
      ((∀ entry ∈ generated.entries, entry.number = none) ∨
        ∀ i (hi : i < generated.entries.length), generated.entries[i].number = some (i + 1) ∧
          ∃ entry ∈ entries, entry.citationKey = generated.entries[i].id ∧
            entry.number = some (i + 1)) := by
  rw [generatedBibliography] at h
  simp only at h
  by_cases hempty : (entries.filter fun entry => !defined.contains entry.citationKey).isEmpty
  · rw [if_pos hempty] at h
    cases h
  · rw [if_neg hempty] at h
    obtain rfl := Option.some.inj h
    refine ⟨by rw [List.map_map]; rfl, ?_⟩
    by_cases hnumbers : numbersCountUpFromOne
        (entries.filter fun entry => !defined.contains entry.citationKey) = true
    · refine Or.inr fun i hi => ?_
      rw [List.length_map] at hi
      have hnumber := numbersCountUpFromOne_getElem hnumbers hi
      simp only [List.getElem_map, if_pos hnumbers]
      exact ⟨hnumber, _, List.mem_of_mem_filter (List.getElem_mem hi), rfl, hnumber⟩
    · refine Or.inl fun entry hentry => ?_
      obtain ⟨source, -, rfl⟩ := List.mem_map.mp hentry
      exact if_neg hnumbers

theorem entryNumber_eq_some {number shown : ℕ} (h : style.entryNumber number = some shown) :
    shown = number := by
  cases style with
  | authorYear => cases h
  | numeric =>
    rw [CitationStyle.entryNumber] at h
    by_cases hlt : number < 2 ^ 32
    · rw [if_pos hlt] at h
      exact (Option.some.inj h).symm
    · rw [if_neg hlt] at h
      cases h

/-- The resolved keys have the numbers from one on by their first appearance, each has one entry,
under its number, and the citations link to the entries by these numbers. Where the rendering
numbers its list, it does so from one on and by the same numbers. -/
theorem citation_numbering_consistent {json : JsonCodec} (items : List (BibliographyItem json))
    (queries : List NoteCitationQuery) (style : CitationStyle) :
    ∃ (found : ResolvedCitations) (number : String → ℕ),
      resolveCitations items queries style = some found ∧
      (found.entries.map NoteBibliographyEntry.citationKey).Nodup ∧
      (∀ key, key ∈ found.entries.map NoteBibliographyEntry.citationKey ↔
        key ∈ queries.flatMap NoteCitationQuery.keys ∧ isResolved items key = true) ∧
      (∀ i (hi : i < found.entries.length), number found.entries[i].citationKey = i + 1) ∧
      (∀ first ∈ found.entries, ∀ second ∈ found.entries,
        number first.citationKey < number second.citationKey ↔
          (queries.flatMap NoteCitationQuery.keys).idxOf first.citationKey <
            (queries.flatMap NoteCitationQuery.keys).idxOf second.citationKey) ∧
      (∀ entry ∈ found.entries, ∃ item, itemByKey items entry.citationKey = some item ∧
        entry.text = CitationStyle.entryText item ∧
        entry.number = style.entryNumber (number entry.citationKey)) ∧
      found.resolutions = queries.map (shownCitation items style number) ∧
      ∀ (defined : List String) (generated : GeneratedBibliography),
        generatedBibliography defined found.entries = some generated →
          (generated.entries.map fun entry => (entry.id, entry.text)) =
              (found.entries.filter fun entry => !defined.contains entry.citationKey).map
                (fun entry => (entry.citationKey, entry.text)) ∧
            ((∀ entry ∈ generated.entries, entry.number = none) ∨
              ∀ i (hi : i < generated.entries.length),
                generated.entries[i].number = some (i + 1) ∧
                  number generated.entries[i].id = i + 1) := by
  have hkeys := @map_citationKey_entries json items style (keyNumber items queries)
    (firstAppearances (queries.flatMap NoteCitationQuery.keys))
  refine ⟨_, keyNumber items queries, resolveCitations_eq, ?_, ?_, ?_, ?_, ?_, rfl, ?_⟩
  · rw [hkeys]
    exact nodup_resolvedKeys
  · intro key
    rw [hkeys]
    exact mem_resolvedKeys
  · intro i hi
    have hlength : i < (resolvedKeys items queries).length := by
      rw [resolvedKeys, ← hkeys, List.length_map]
      exact hi
    rw [← keyNumber_getElem hlength]
    congr 1
    simp only [resolvedKeys, ← hkeys, List.getElem_map]
  · intro first hfirst second hsecond
    have hmem : ∀ {entry}, entry ∈ ((firstAppearances (queries.flatMap
        NoteCitationQuery.keys)).map (listedEntry items style
          (keyNumber items queries))).reduceOption →
        entry.citationKey ∈ resolvedKeys items queries := fun hentry => by
      rw [resolvedKeys, ← hkeys]
      exact List.mem_map_of_mem hentry
    exact keyNumber_lt_iff (hmem hfirst) (hmem hsecond)
  · exact fun entry hentry => mem_entries hentry
  · intro defined generated hgenerated
    obtain ⟨hids, hnone | hsome⟩ := generatedBibliography_numbers hgenerated
    · exact ⟨hids, Or.inl hnone⟩
    · refine ⟨hids, Or.inr fun i hi => ?_⟩
      obtain ⟨hnumber, entry, hentry, hid, hshown⟩ := hsome i hi
      obtain ⟨-, -, -, hown⟩ := mem_entries hentry
      rw [hown] at hshown
      rw [← hid]
      exact ⟨hnumber, (entryNumber_eq_some hshown).symm⟩

end Numbers

end Marginalis
