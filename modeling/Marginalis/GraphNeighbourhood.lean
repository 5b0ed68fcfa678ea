import Marginalis.BreadthFirst
import Marginalis.NoLostUpdate
import Marginalis.NoteGraph

/-!
# The neighbourhood of a note

A graph is read around a note by a search over its edges in both directions. `within_eq_restrict`
says what the search leaves : the vertices at a distance of at most the depth, which is capped,
and the edges between them. `noteGraph_closed` : the graphs the store returns have the ends of
their edges among their vertices.
-/

namespace Marginalis

/-! ## The undirected graph -/

namespace NoteGraph

variable (graph : NoteGraph)

/-- The vertices in the order of the lists. -/
def vertices : List GraphVertex :=
  graph.notes.map (fun note => .note note.noteId) ++
    graph.works.map fun work => .work work.citationKey

/-- A reference or a citation leads from one vertex to the other. -/
def Joins (u v : GraphVertex) : Prop :=
  (∃ edge ∈ graph.references, u = .note edge.sourceNoteId ∧ v = .note edge.targetNoteId) ∨
    ∃ edge ∈ graph.citations, u = .note edge.sourceNoteId ∧ v = .work edge.citationKey

/-- The edges without their direction. An edge from a note to itself joins nothing. -/
def undirected : SimpleGraph GraphVertex := SimpleGraph.fromRel graph.Joins

/-- The ends of every edge are vertices. -/
structure Closed : Prop where
  references : ∀ edge ∈ graph.references,
    .note edge.sourceNoteId ∈ graph.vertices ∧ .note edge.targetNoteId ∈ graph.vertices
  citations : ∀ edge ∈ graph.citations,
    .note edge.sourceNoteId ∈ graph.vertices ∧ .work edge.citationKey ∈ graph.vertices

open Classical in
/-- The vertices of a set, and the edges whose two ends remain. -/
noncomputable def restrict (s : Set GraphVertex) : NoteGraph :=
  let remaining := graph.vertices.filter (· ∈ s)
  { notes := graph.notes.filter fun note => .note note.noteId ∈ s
    works := graph.works.filter fun work => .work work.citationKey ∈ s
    references := graph.references.filter fun edge =>
      .note edge.sourceNoteId ∈ remaining ∧ .note edge.targetNoteId ∈ remaining
    citations := graph.citations.filter fun edge =>
      .note edge.sourceNoteId ∈ remaining ∧ .work edge.citationKey ∈ remaining }

/-- The vertices a vertex is joined to. -/
def neighbours (u : GraphVertex) : List GraphVertex :=
  (graph.adjacency.filter fun edge => edge.1 = u).map Prod.snd

/-! ## The search -/

variable {graph} {u v : GraphVertex} {origin : NoteId} {depth : ℕ}

theorem expand_eq : graph.expand = BreadthFirst.expand graph.neighbours := rfl

theorem search_eq (rounds : ℕ) (state : List GraphVertex × List GraphVertex) :
    graph.search rounds state = BreadthFirst.search graph.neighbours rounds state := by
  induction rounds generalizing state with
  | zero => rfl
  | succ rounds ih =>
    rw [search, BreadthFirst.search, expand_eq]
    split_ifs
    · rfl
    · exact ih _

theorem mem_neighbours : v ∈ graph.neighbours u ↔ graph.Joins u v ∨ graph.Joins v u := by
  have hmem : v ∈ graph.neighbours u ↔ (u, v) ∈ graph.adjacency := by
    simp [neighbours]
  rw [hmem, adjacency, List.mem_append, List.mem_flatMap, List.mem_flatMap]
  simp only [List.mem_cons, List.not_mem_nil, or_false, Prod.mk.injEq, Joins]
  constructor
  · rintro (⟨edge, hedge, h | h⟩ | ⟨edge, hedge, h | h⟩)
    · exact Or.inl (Or.inl ⟨edge, hedge, h⟩)
    · exact Or.inr (Or.inl ⟨edge, hedge, h.symm⟩)
    · exact Or.inl (Or.inr ⟨edge, hedge, h⟩)
    · exact Or.inr (Or.inr ⟨edge, hedge, h.symm⟩)
  · rintro ((⟨edge, hedge, h⟩ | ⟨edge, hedge, h⟩) | ⟨edge, hedge, h⟩ | ⟨edge, hedge, h⟩)
    · exact Or.inl ⟨edge, hedge, Or.inl h⟩
    · exact Or.inr ⟨edge, hedge, Or.inl h⟩
    · exact Or.inl ⟨edge, hedge, Or.inr h.symm⟩
    · exact Or.inr ⟨edge, hedge, Or.inr h.symm⟩

theorem visits : BreadthFirst.Visits graph.neighbours graph.undirected where
  adj u v hv := by
    by_cases heq : u = v
    · exact Or.inl heq
    · exact Or.inr ((SimpleGraph.fromRel_adj _ _ _).mpr ⟨heq, mem_neighbours.mp hv⟩)
  mem u v hadj := mem_neighbours.mpr ((SimpleGraph.fromRel_adj _ _ _).mp hadj).2

theorem mem_reached : v ∈ graph.reached origin depth ↔
    graph.undirected.edist (.note origin) v ≤ (min depth maxGraphDepth : ℕ) := by
  rw [reached, search_eq, BreadthFirst.search_eq_iterate]
  exact BreadthFirst.mem_reached_iff visits

theorem note_mem_vertices :
    .note origin ∈ graph.vertices ↔ ∃ note ∈ graph.notes, note.noteId = origin := by
  simp [vertices]

end NoteGraph

/-! ## The graphs of the store -/

section Works

variable {lib : GraphLibrary} {works works' : List NoteGraphWork} {items : List CitedItem}
  {citationKey key : String} {title : Option String}

theorem mem_insertWork :
    citationKey ∈ (insertWork works key title).map NoteGraphWork.citationKey ↔
      citationKey ∈ works.map NoteGraphWork.citationKey ∨ citationKey = key := by
  unfold insertWork
  split_ifs with hany
  · have hkeys : (works.map fun work =>
        if work.citationKey = key then { work with title := work.title.or title } else work).map
          NoteGraphWork.citationKey = works.map NoteGraphWork.citationKey := by
      rw [List.map_map]
      refine List.map_congr_left fun work _ => ?_
      rw [Function.comp_apply]
      split_ifs <;> rfl
    rw [hkeys]
    refine ⟨Or.inl, ?_⟩
    rintro (hmem | rfl)
    · exact hmem
    · obtain ⟨work, hwork, heq⟩ := List.any_eq_true.mp hany
      exact List.mem_map.mpr ⟨work, hwork, of_decide_eq_true heq⟩
  · rw [List.map_append, List.mem_append, List.map_singleton, List.mem_singleton]

theorem mem_foldlM_insertWork (h : items.foldlM (fun works item => do
      let title ← item.title lib
      return insertWork works item.citation.citationKey title) works = .ok works') :
    citationKey ∈ works'.map NoteGraphWork.citationKey ↔
      citationKey ∈ works.map NoteGraphWork.citationKey ∨
        ∃ item ∈ items, item.citation.citationKey = citationKey := by
  induction items generalizing works with
  | nil =>
    obtain rfl := Except.ok.inj h
    simp
  | cons item items ih =>
    rw [List.foldlM_cons] at h
    obtain ⟨next, hnext, h⟩ := Except.bind_eq_ok.mp h
    obtain ⟨title, -, hnext⟩ := Except.bind_eq_ok.mp hnext
    obtain rfl := Except.ok.inj hnext
    rw [ih h, mem_insertWork, List.exists_mem_cons_iff, or_assoc, eq_comm (a := citationKey)]

/-- The works are those the citations name. -/
theorem mem_citedWorks (h : citedWorks lib items = .ok works) :
    citationKey ∈ works.map NoteGraphWork.citationKey ↔
      ∃ item ∈ items, item.citation.citationKey = citationKey := by
  obtain ⟨unordered, hfold, h⟩ := Except.bind_eq_ok.mp h
  obtain rfl := Except.ok.inj h
  have hkeys : citationKey ∈ (Table.orderBy NoteGraphWork.citationKey unordered).map
      NoteGraphWork.citationKey ↔ citationKey ∈ unordered.map NoteGraphWork.citationKey := by
    simp only [List.mem_map, Table.mem_orderBy]
  rw [hkeys, mem_foldlM_insertWork hfold]
  simp

end Works

/-- The graph the store returns has the ends of its edges. -/
theorem Database.noteGraph_closed {db : Database} {lib : GraphLibrary} {actor : Actor}
    {query : NoteGraphQuery} {graph : NoteGraph} (h : db.noteGraph lib actor query = .ok graph) :
    graph.Closed := by
  rw [noteGraph] at h
  obtain ⟨notes, hnotes, h⟩ := Except.bind_eq_ok.mp h
  obtain ⟨works, hworks, h⟩ := Except.bind_eq_ok.mp h
  obtain rfl := Except.ok.inj h
  have hvisible : ∀ {noteId}, noteId ∈ notes.map NoteGraphNote.noteId →
      ∀ {tail : List GraphVertex},
        GraphVertex.note noteId ∈ notes.map (fun note => .note note.noteId) ++ tail := by
    intro noteId hmem tail
    obtain ⟨note, hnote, rfl⟩ := List.mem_map.mp hmem
    exact List.mem_append_left _ (List.mem_map_of_mem hnote)
  constructor
  · intro edge hedge
    have hends := (List.mem_filter.mp hedge).2
    rw [Bool.and_eq_true, decide_eq_true_eq, decide_eq_true_eq] at hends
    exact ⟨hvisible hends.1, hvisible hends.2⟩
  · intro edge hedge
    obtain ⟨item, hitem, rfl⟩ := List.mem_map.mp hedge
    have hsource := of_decide_eq_true (List.mem_filter.mp hitem).2
    obtain ⟨work, hwork, hkey⟩ := List.mem_map.mp ((mem_citedWorks hworks).mpr ⟨item, hitem, rfl⟩)
    refine ⟨hvisible hsource, List.mem_append_right _ (List.mem_map.mpr ⟨work, hwork, ?_⟩)⟩
    rw [hkey]

/-! ## What is read around a note -/

namespace NoteGraph

variable {graph : NoteGraph} {origin : NoteId} {depth : ℕ}

/-- A graph is read around a note it lists up to a distance, and around any other note it is
empty. -/
theorem within_eq_restrict (h : graph.Closed) (origin : NoteId) (depth : ℕ) :
    (.note origin ∈ graph.vertices → graph.within origin depth =
      graph.restrict {v | graph.undirected.edist (.note origin) v ≤
        (min depth maxGraphDepth : ℕ)}) ∧
    (.note origin ∉ graph.vertices → graph.within origin depth = empty) := by
  have hlisted : (graph.notes.any fun note => note.noteId = origin) = true ↔
      .note origin ∈ graph.vertices := by
    rw [note_mem_vertices]
    simp
  refine ⟨fun hmem => ?_, fun hmem => ?_⟩
  · rw [within, if_pos (hlisted.mpr hmem), restrict]
    dsimp only
    congr 1
    · exact List.filter_congr fun note _ => decide_eq_decide.mpr mem_reached
    · exact List.filter_congr fun work _ => decide_eq_decide.mpr mem_reached
    · refine List.filter_congr fun edge hedge => ?_
      obtain ⟨hsource, htarget⟩ := h.references edge hedge
      simp [mem_reached, hsource, htarget]
    · refine List.filter_congr fun edge hedge => ?_
      obtain ⟨hsource, htarget⟩ := h.citations edge hedge
      simp [mem_reached, hsource, htarget]
  · rw [within, if_neg (mt hlisted.mp hmem)]

/-- Alice writes a note that refers to itself and to another one, which refers back and cites a
work, and a third one. -/
def cyclicNotes : Database :=
  [NoteCommand.create Database.alice ⟨1⟩ ⟨"A", "= A", []⟩ ⟨[], [], []⟩ 100 .web,
    .create Database.alice ⟨2⟩ ⟨"B", "= B", []⟩ ⟨[⟨1⟩], ["knuth"], []⟩ 200 .web,
    .create Database.alice ⟨3⟩ ⟨"C", "= C", []⟩ ⟨[], [], []⟩ 300 .web,
    .update Database.alice ⟨1⟩ 1 ⟨"A", "= A", []⟩ ⟨[⟨1⟩, ⟨2⟩], [], []⟩ 400].foldl
      (fun db c => db.commit (c.exec db)) Database.twoPrincipals

/-- The readers of the example. -/
def plainGraphLibrary : GraphLibrary := ⟨id, fun _ => "[]", fun _ _ => some none⟩

/-- The graph of these notes around the first one. -/
theorem within_eq_restrict_cyclicNotes :
    ∃ graph,
      cyclicNotes.noteGraph plainGraphLibrary Database.alice ⟨none, none, none⟩ = .ok graph ∧
      graph.references = [⟨⟨1⟩, ⟨1⟩⟩, ⟨⟨1⟩, ⟨2⟩⟩, ⟨⟨2⟩, ⟨1⟩⟩] ∧
      graph.citations = [⟨⟨2⟩, "knuth"⟩] ∧
      graph.within ⟨1⟩ 1 = graph.restrict {v | graph.undirected.edist (.note ⟨1⟩) v ≤
        (min 1 maxGraphDepth : ℕ)} := by
  obtain ⟨graph, hgraph⟩ : ∃ graph, cyclicNotes.noteGraph plainGraphLibrary Database.alice
      ⟨none, none, none⟩ = .ok graph := Except.exists_eq_ok (by decide +kernel)
  have hall : (cyclicNotes.noteGraph plainGraphLibrary Database.alice
      ⟨none, none, none⟩).toOption.all (fun graph => decide
        ((graph.references = [⟨⟨1⟩, ⟨1⟩⟩, ⟨⟨1⟩, ⟨2⟩⟩, ⟨⟨2⟩, ⟨1⟩⟩] ∧
          graph.citations = [⟨⟨2⟩, "knuth"⟩]) ∧ .note ⟨1⟩ ∈ graph.vertices)) = true := by
    decide +kernel
  rw [hgraph] at hall
  obtain ⟨hedges, hmem⟩ := of_decide_eq_true hall
  exact ⟨graph, hgraph, hedges.1, hedges.2,
    (within_eq_restrict (Database.noteGraph_closed hgraph) ⟨1⟩ 1).1 hmem⟩

end NoteGraph

end Marginalis
