import Marginalis.NoteQueries

/-!
# The graph of notes and cited works

The graph a principal sees has a vertex for every note they can read and every work these
notes cite, and an edge only between two vertices it has. A text narrows the notes down with
`LIKE`, and an origin narrows the graph down to what some steps reach.

Lower case beyond ASCII, the JSON text of a tag list and the title inside a CSL item are
computed by libraries and come in as `GraphLibrary`.
-/

namespace Marginalis

open Table (orderBy)

/-! ## The text filter -/

/-- `str::to_lowercase`, the JSON text of a tag list, and the title of a CSL item stored under
a citation key : none when the item is not valid. -/
structure GraphLibrary where
  toLowercase : List Char → List Char
  tagsJson : List String → String
  cslTitle : String → String → Option (Option String)

/-- A place of a `LIKE` pattern. -/
inductive LikeToken
  | anySequence
  | anyCharacter
  | character (c : Char)
  deriving DecidableEq, Repr

/-- A pattern read with `ESCAPE '!'` : none when it ends with the escape, and matches nothing. -/
def likeTokens : List Char → Option (List LikeToken)
  | [] => some []
  | ['!'] => none
  | '!' :: c :: rest => (likeTokens rest).map (.character c :: ·)
  | '%' :: rest => (likeTokens rest).map (.anySequence :: ·)
  | '_' :: rest => (likeTokens rest).map (.anyCharacter :: ·)
  | c :: rest => (likeTokens rest).map (.character c :: ·)

/-- `LIKE`, which ignores the case of ASCII letters. -/
def likeMatches : List LikeToken → List Char → Bool
  | [], text => text.isEmpty
  | .anySequence :: rest, text => text.tails.any (likeMatches rest)
  | .anyCharacter :: rest, text => text.tail?.any (likeMatches rest)
  | .character c :: rest, text =>
    text.head?.any (fun d => c.toLower = d.toLower) && text.tail?.any (likeMatches rest)

/-- `LIKE` ends a text, and a pattern, at the first U+0000. -/
def untilNul (text : List Char) : List Char := text.takeWhile fun c => c ≠ '\x00'

/-- `text LIKE pattern ESCAPE '!'`. -/
def sqlLike (text pattern : List Char) : Bool :=
  (likeTokens (untilNul pattern)).any fun tokens => likeMatches tokens (untilNul text)

/-- The bytes of the longest pattern that `LIKE` compares with. -/
def maxLikePatternLength : ℕ := 50000

/-- A comparison with the pattern is an error. -/
def LikeTooComplex (pattern : List Char) : Prop :=
  maxLikePatternLength < (pattern.map Char.utf8Size).sum

instance : DecidablePred LikeTooComplex := fun _ => inferInstanceAs (Decidable (_ < _))

/-- `like_contains_pattern`. -/
def likeContainsPattern (lib : GraphLibrary) (value : List Char) : List Char :=
  ['%'] ++ ((lib.toLowercase value).flatMap fun c =>
    if c = '!' ∨ c = '%' ∨ c = '_' then ['!', c] else [c]) ++ ['%']

/-- The `lower` of SQLite, of ASCII letters. -/
def sqlLower (s : String) : List Char := s.toList.map Char.toLower

/-- The text of a query : none when it is blank. -/
def graphPattern (lib : GraphLibrary) (text : Option String) : Option (List Char) :=
  ((text.map fun value => trim value.toList).filter fun value => value ≠ []).map
    (likeContainsPattern lib)

/-- Title, source or tags of the note match the pattern. -/
def NoteRow.MatchesText (lib : GraphLibrary) (pattern : Option (List Char)) (row : NoteRow) :
    Prop :=
  ∀ p ∈ pattern, sqlLike (sqlLower row.title) p = true ∨ sqlLike (sqlLower row.source) p = true ∨
    sqlLike (sqlLower (lib.tagsJson row.tags)) p = true

instance (lib : GraphLibrary) (pattern : Option (List Char)) :
    DecidablePred (NoteRow.MatchesText lib pattern) := fun row => by
  unfold NoteRow.MatchesText
  infer_instance

/-! ## The graph -/

structure NoteGraphNote where
  noteId : NoteId
  title : String
  tags : List String
  updatedAt : ℤ
  deriving DecidableEq, Repr

structure NoteGraphWork where
  citationKey : String
  title : Option String
  deriving DecidableEq, Repr

structure NoteGraphReference where
  sourceNoteId : NoteId
  targetNoteId : NoteId
  deriving DecidableEq, Repr

structure NoteGraphCitation where
  sourceNoteId : NoteId
  citationKey : String
  deriving DecidableEq, Repr

structure NoteGraph where
  notes : List NoteGraphNote
  works : List NoteGraphWork
  references : List NoteGraphReference
  citations : List NoteGraphCitation
  deriving DecidableEq, Repr

/-- `NoteGraph::default`. -/
def NoteGraph.empty : NoteGraph := ⟨[], [], [], []⟩

structure NoteGraphQuery where
  text : Option String
  origin : Option NoteId
  depth : Option ℕ
  deriving DecidableEq, Repr

/-- A citation of a note, with the item of the note's owner it resolves to. -/
structure CitedItem where
  citation : NoteGraphCitation
  cslJson : Option String
  deriving DecidableEq, Repr

/-- `csl_title` of a citation. -/
def CitedItem.title (lib : GraphLibrary) (item : CitedItem) :
    Except SqliteStoreError (Option String) :=
  match item.cslJson with
  | none => .ok none
  | some cslJson =>
    match lib.cslTitle item.citation.citationKey cslJson with
    | none => .error .corruptData
    | some title => .ok title

/-- The entry of a work in the map of works : the first title that is known stays. -/
def insertWork (works : List NoteGraphWork) (citationKey : String) (title : Option String) :
    List NoteGraphWork :=
  if works.any fun work => work.citationKey = citationKey then
    works.map fun work =>
      if work.citationKey = citationKey then { work with title := work.title.or title } else work
  else works ++ [⟨citationKey, title⟩]

/-- The works the citations name, and their titles, in the order of the keys. -/
def citedWorks (lib : GraphLibrary) (items : List CitedItem) :
    Except SqliteStoreError (List NoteGraphWork) := do
  let works ← items.foldlM (fun works item => do
    let title ← item.title lib
    return insertWork works item.citation.citationKey title) []
  return orderBy NoteGraphWork.citationKey works

namespace Database

variable (db : Database)

/-- The notes the first query of `note_graph` is for. -/
def graphNotes (lib : GraphLibrary) (principal : PrincipalId) (pattern : Option (List Char)) :
    List NoteGraphNote :=
  let rows := orderBy (fun row => row.noteId.entityId)
    (db.notes.select fun row => row.deletedAt = none ∧ row.MatchesText lib pattern)
  (rows.flatMap fun row => (db.accessRows principal row.noteId).map fun _ => row).map fun row =>
    ⟨row.noteId, row.title, row.tags, row.updatedAt⟩

/-- Its result : when the pattern is too long, the first note it compares is an error. -/
def queryGraphNotes (lib : GraphLibrary) (principal : PrincipalId)
    (pattern : Option (List Char)) : Except SqliteStoreError (List NoteGraphNote) :=
  if (∃ p ∈ pattern, LikeTooComplex p) ∧ db.graphNotes lib principal none ≠ [] then
    .error .database
  else .ok (db.graphNotes lib principal pattern)

/-- The rows of `note_access` a query joins for a note that is not deleted. -/
def activeAccessRows (principal : PrincipalId) (noteId : NoteId) : List AccessRow :=
  match (db.notes.find noteId).filter fun row => row.deletedAt = none with
  | none => []
  | some _ => db.accessRows principal noteId

/-- The second query of `note_graph`. -/
def graphReferences (principal : PrincipalId) : List NoteGraphReference :=
  let rows := orderBy
    (fun reference => toLex (reference.sourceNoteId.entityId, reference.targetNoteId.entityId))
    db.noteReferences.rows
  rows.flatMap fun reference =>
    (db.activeAccessRows principal reference.sourceNoteId).flatMap fun _ =>
      (db.activeAccessRows principal reference.targetNoteId).map fun _ =>
        ⟨reference.sourceNoteId, reference.targetNoteId⟩

/-- The item a citation of a note resolves to, in the library of the note's owner. -/
def citedCslJson (citation : CitationRow) : Option String := do
  let note ← db.notes.find citation.sourceNoteId
  let item ← db.bibliographyItems.rows.find? fun item =>
    item.owner = note.creator ∧ item.citationKey = citation.citationKey
  return item.cslJson

/-- The third query of `note_graph`. -/
def graphCitations (principal : PrincipalId) : List CitedItem :=
  let rows := orderBy
    (fun citation => toLex (citation.sourceNoteId.entityId, citation.citationKey))
    db.noteCitations.rows
  rows.flatMap fun citation =>
    (db.activeAccessRows principal citation.sourceNoteId).map fun _ =>
      ⟨⟨citation.sourceNoteId, citation.citationKey⟩, db.citedCslJson citation⟩

/-- `note_graph`. -/
def noteGraph (lib : GraphLibrary) (actor : Actor) (query : NoteGraphQuery) :
    Except SqliteStoreError NoteGraph := do
  let notes ← db.queryGraphNotes lib actor.principalId (graphPattern lib query.text)
  let visible := fun noteId => decide (noteId ∈ notes.map NoteGraphNote.noteId)
  let references := (db.graphReferences actor.principalId).filter fun edge =>
    visible edge.sourceNoteId && visible edge.targetNoteId
  let items := (db.graphCitations actor.principalId).filter fun item =>
    visible item.citation.sourceNoteId
  let works ← citedWorks lib items
  return ⟨notes, works, references, items.map CitedItem.citation⟩

end Database

/-! ## The neighbourhood of a note -/

/-- `MAX_GRAPH_DEPTH`. -/
def maxGraphDepth : ℕ := 5

inductive GraphVertex
  | note (noteId : NoteId)
  | work (citationKey : String)
  deriving DecidableEq, Repr

namespace NoteGraph

variable (graph : NoteGraph)

/-- The edges, in both directions. -/
def adjacency : List (GraphVertex × GraphVertex) :=
  (graph.references.flatMap fun edge =>
      [(.note edge.sourceNoteId, .note edge.targetNoteId),
        (.note edge.targetNoteId, .note edge.sourceNoteId)]) ++
    graph.citations.flatMap fun edge =>
      [(.note edge.sourceNoteId, .work edge.citationKey),
        (.work edge.citationKey, .note edge.sourceNoteId)]

/-- One round of the search : the vertices reached so far, and those reached last. -/
def expand (state : List GraphVertex × List GraphVertex) : List GraphVertex × List GraphVertex :=
  state.2.foldl (fun (next : List GraphVertex × List GraphVertex) vertex =>
    ((graph.adjacency.filter fun edge => edge.1 = vertex).map Prod.snd).foldl
      (fun next neighbour =>
        if neighbour ∈ next.1 then next
        else (next.1 ++ [neighbour], next.2 ++ [neighbour])) next) (state.1, [])

/-- The rounds of the search, which ends when one of them reaches nothing. -/
def search : ℕ → List GraphVertex × List GraphVertex → List GraphVertex
  | 0, state => state.1
  | rounds + 1, state =>
    let next := graph.expand state
    if next.2 = [] then next.1 else search rounds next

/-- The vertices some steps away from the origin. -/
def reached (origin : NoteId) (depth : ℕ) : List GraphVertex :=
  graph.search (min depth maxGraphDepth) ([.note origin], [.note origin])

/-- `NoteGraph::within`. -/
def within (origin : NoteId) (depth : ℕ) : NoteGraph :=
  if graph.notes.any fun note => note.noteId = origin then
    let reached := graph.reached origin depth
    { notes := graph.notes.filter fun note => .note note.noteId ∈ reached
      works := graph.works.filter fun work => .work work.citationKey ∈ reached
      references := graph.references.filter fun edge =>
        .note edge.sourceNoteId ∈ reached ∧ .note edge.targetNoteId ∈ reached
      citations := graph.citations.filter fun edge =>
        .note edge.sourceNoteId ∈ reached ∧ .work edge.citationKey ∈ reached }
  else empty

end NoteGraph

/-- `NoteApplication::read_note_graph`. -/
def Database.readNoteGraph (db : Database) (lib : GraphLibrary) (actor : Actor)
    (query : NoteGraphQuery) : Except SqliteStoreError NoteGraph := do
  let graph ← db.noteGraph lib actor query
  return match query.origin with
    | some origin => graph.within origin (query.depth.getD 1)
    | none => graph

end Marginalis
