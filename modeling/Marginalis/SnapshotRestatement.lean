import Marginalis.SnapshotRestore

/-!
# Snapshots that say the same

Whoever reads a snapshot from an archive numbers its principals anew and derives the titles and tags
of its notes from their sources once more (`LogicalSnapshot.restate`). As long as different
principals get different numbers, the parts of a snapshot that fit still do (`Fits.restate`).
-/

namespace Marginalis

open LogicalSnapshot
open Table (orderBy)

/-- Keys that tell elements apart can be replaced by others that do. -/
theorem nodup_map_of_imp {α β γ : Type*} {f : α → β} {g : α → γ} {l : List α}
    (h : (l.map f).Nodup) (himp : ∀ a ∈ l, ∀ b ∈ l, g a = g b → f a = f b) :
    (l.map g).Nodup :=
  h.of_map.map_on fun a ha b hb heq => List.inj_on_of_nodup_map h ha hb (himp a ha b hb heq)

/-- New numbers for principals, and drafts that are derived anew from their sources. -/
structure Restatement where
  principalId : PrincipalId → PrincipalId
  draft : NoteDraft → NoteDraft
  source_draft : ∀ old, (draft old).source = old.source

variable {lib : AttachmentLibrary} {json : JsonCodec} (r : Restatement)

/-! ## Entries -/

def PrincipalRef.restate (reference : PrincipalRef) : PrincipalRef :=
  ⟨r.principalId reference.id, reference.primaryIdentity⟩

def NoteReviewRecord.restate (review : NoteReviewRecord) : NoteReviewRecord :=
  { review with reviewer := review.reviewer.restate r }

def NoteReviewTracking.restate : NoteReviewTracking → NoteReviewTracking
  | unknown => unknown
  | tracked lastReview => tracked (lastReview.map (NoteReviewRecord.restate r))

variable {r} in
theorem PrincipalRef.Same.restate {a b : PrincipalRef} (h : a.Same b) :
    (a.restate r).Same (b.restate r) := congrArg r.principalId h

@[simp] theorem NoteReviewTracking.lastReview_restate (review : NoteReviewTracking) :
    (review.restate r).lastReview = review.lastReview.map (NoteReviewRecord.restate r) := by
  cases review <;> rfl

/-- Whose note it is and who reviewed it are the same people. -/
def Note.restate (note : Note) : Note where
  noteId := note.noteId
  owner := note.owner.restate r
  draft := r.draft note.draft
  createdAt := note.createdAt
  updatedAt := note.updatedAt
  revision := note.revision
  deletedAt := note.deletedAt
  createdVia := note.createdVia
  review := note.review.restate r
  consistent := by
    obtain ⟨htimes, hdeleted, hreview⟩ := note.consistent
    refine ⟨htimes, hdeleted, fun review hlast => ?_⟩
    rw [NoteReviewTracking.lastReview_restate] at hlast
    obtain ⟨old, hold, rfl⟩ := Option.map_eq_some_iff.mp hlast
    obtain ⟨hrevision, hafter, hbefore, howner⟩ := hreview old hold
    exact ⟨hrevision, hafter, hbefore, howner.restate⟩

def NoteRevisionSnapshot.restate (entry : NoteRevisionSnapshot) : NoteRevisionSnapshot :=
  ⟨entry.note.restate r, entry.changedBy.restate r, entry.kind⟩

def NoteAclSnapshotEntry.restate (entry : NoteAclSnapshotEntry) : NoteAclSnapshotEntry :=
  { entry with principal := entry.principal.restate r }

def BibliographyItem.restate (item : BibliographyItem json) : BibliographyItem json :=
  { item with owner := item.owner.restate r }

def BibliographyImportSource.restate (source : BibliographyImportSource) :
    BibliographyImportSource :=
  { source with owner := source.owner.restate r }

def MathMacroSettingsSnapshot.restate (entry : MathMacroSettingsSnapshot) :
    MathMacroSettingsSnapshot :=
  { entry with owner := entry.owner.restate r }

def Principal.restate (principal : Principal) : Principal :=
  { principal with reference := principal.reference.restate r }

def StoredAttachment.restate (attachment : StoredAttachment lib) : StoredAttachment lib where
  metadata := { attachment.metadata with createdBy := attachment.metadata.createdBy.restate r }
  bytes := attachment.bytes
  metadata_valid := AttachmentMetadata.new_createdBy attachment.metadata_valid _
  bytes_valid := attachment.bytes_valid

/-- The same snapshot, with new numbers and derived drafts. -/
def LogicalSnapshot.restate (s : LogicalSnapshot lib json) : LogicalSnapshot lib json where
  principals := s.principals.map (Principal.restate r)
  notes := s.notes.map (Note.restate r)
  noteRevisions := s.noteRevisions.map (NoteRevisionSnapshot.restate r)
  attachments := s.attachments.map (StoredAttachment.restate r)
  noteRevisionAttachments := s.noteRevisionAttachments
  noteAcl := s.noteAcl.map (NoteAclSnapshotEntry.restate r)
  bibliographyItems := s.bibliographyItems.map (BibliographyItem.restate r)
  bibliographyImportSources := s.bibliographyImportSources.map (BibliographyImportSource.restate r)
  bibliographyImportLinks := s.bibliographyImportLinks
  mathMacroSettings := s.mathMacroSettings.map (MathMacroSettingsSnapshot.restate r)

namespace LogicalSnapshot

/-! ## Numbers that differ -/

/-- Different principals have different numbers. -/
def Separates (principals : List Principal) : Prop :=
  ∀ a ∈ principals, ∀ b ∈ principals,
    r.principalId a.reference.id = r.principalId b.reference.id → a.reference.id = b.reference.id

variable {r} {principals : List Principal}

theorem Separates.eq_of_knows (h : Separates r principals) {a b : PrincipalRef}
    (ha : Knows principals a) (hb : Knows principals b)
    (heq : r.principalId a.id = r.principalId b.id) : a.id = b.id := by
  obtain ⟨p, hp, rfl⟩ := ha
  obtain ⟨q, hq, rfl⟩ := hb
  exact h p hp q hq heq

theorem knows_restate {reference : PrincipalRef} (h : Knows principals reference) :
    Knows (principals.map (Principal.restate r)) (reference.restate r) := by
  obtain ⟨principal, hprincipal, rfl⟩ := h
  exact ⟨_, List.mem_map_of_mem hprincipal, rfl⟩

theorem noteRefers_restate {note : Note} (h : NoteRefers (Knows principals) note) :
    NoteRefers (Knows (principals.map (Principal.restate r))) (note.restate r) := by
  refine ⟨knows_restate h.1, fun review hlast => ?_⟩
  obtain ⟨old, hold, rfl⟩ := Option.map_eq_some_iff.mp
    ((NoteReviewTracking.lastReview_restate r note.review).symm.trans hlast)
  exact knows_restate (h.2 old hold)

/-! ## Parts that fit -/

theorem sameValues_restate {a b : Note} (h : a.SameValues b) :
    (a.restate r).SameValues (b.restate r) := by
  obtain ⟨howner, hvalues, hreview⟩ := h
  refine ⟨howner.restate, ?_, ?_⟩
  · have hfields (f : NoteRestore → NoteRestore) := congrArg f hvalues
    exact hfields fun note => { note with
      owner := b.owner.restate r
      draft := r.draft note.draft
      review := b.review.restate r }
  · unfold Note.restate
    dsimp only
    cases ha : a.review with
    | unknown =>
      cases hb : b.review with
      | unknown => trivial
      | tracked last => simp [ha, hb] at hreview
    | tracked last =>
      cases hb : b.review with
      | unknown => simp [ha, hb] at hreview
      | tracked last' =>
        rw [ha, hb] at hreview
        cases last with
        | none =>
          cases last' with
          | none => trivial
          | some review' => simp at hreview
        | some review =>
          cases last' with
          | none => simp at hreview
          | some review' => exact ⟨hreview.1, hreview.2.1, hreview.2.2.restate⟩

theorem isCompleteHistory_restate {history : List NoteRevisionSnapshot} {current : Note}
    (h : isCompleteHistory history current = true) :
    isCompleteHistory (history.map (NoteRevisionSnapshot.restate r)) (current.restate r) =
      true := by
  unfold isCompleteHistory at h ⊢
  rw [List.getLast?_map]
  cases hlast : history.getLast? with
  | none => simp [hlast] at h
  | some latest =>
    simp only [hlast, decide_eq_true_eq, List.all_eq_true] at h
    simp only [Option.map_some, decide_eq_true_eq, List.all_eq_true]
    refine ⟨sameValues_restate h.1, fun pair hpair => ?_⟩
    rw [← List.map_tail, List.zip_map] at hpair
    obtain ⟨old, hold, rfl⟩ := List.mem_map.mp hpair
    exact h.2 old hold

theorem sortedRevisions_restate (revisions : List NoteRevisionSnapshot) :
    sortedRevisions (revisions.map (NoteRevisionSnapshot.restate r)) =
      (sortedRevisions revisions).map (NoteRevisionSnapshot.restate r) := Table.orderBy_map

theorem NotesFit.restate {notes : List Note} {noteAcl : List NoteAclSnapshotEntry}
    (h : NotesFit notes noteAcl) (hr : Separates r principals)
    (hnotes : ∀ note ∈ notes, Knows principals note.owner)
    (hacl : ∀ entry ∈ noteAcl, Knows principals entry.principal) :
    NotesFit (notes.map (Note.restate r)) (noteAcl.map (NoteAclSnapshotEntry.restate r)) where
  ids := by
    rw [List.map_map]
    exact h.ids
  keys := by
    rw [List.map_map]
    refine nodup_map_of_imp h.keys fun a ha b hb heq => ?_
    obtain ⟨hnote, hid⟩ := Prod.mk.inj heq
    exact Prod.ext hnote (hr.eq_of_knows (hacl a ha) (hacl b hb) hid)
  granted := by
    refine List.forall_mem_map.mpr fun entry hentry => ?_
    obtain ⟨note, hnote, hid, hother⟩ := h.granted entry hentry
    refine ⟨_, List.mem_map_of_mem hnote, hid, fun hsame => hother ?_⟩
    exact hr.eq_of_knows (hacl entry hentry) (hnotes note hnote) hsame

theorem RevisionsFit.restate {notes : List Note} {revisions : List NoteRevisionSnapshot}
    (h : RevisionsFit notes revisions) :
    RevisionsFit (notes.map (Note.restate r))
      (revisions.map (NoteRevisionSnapshot.restate r)) where
  keys := by
    rw [List.map_map]
    exact h.keys
  ofNote := by
    refine List.forall_mem_map.mpr fun entry hentry => ?_
    obtain ⟨current, hcurrent, hid, howner, hrest⟩ := h.ofNote entry hentry
    exact ⟨_, List.mem_map_of_mem hcurrent, hid, howner.restate, hrest⟩
  complete := by
    refine List.forall_mem_map.mpr fun current hcurrent => ?_
    rw [sortedRevisions_restate, List.filter_map]
    exact isCompleteHistory_restate (h.complete current hcurrent)

theorem LibraryFits.restate {items : List (BibliographyItem json)}
    {sources : List BibliographyImportSource} {links : List BibliographyImportLink}
    (h : LibraryFits items sources links) (hr : Separates r principals)
    (hitems : ∀ item ∈ items, Knows principals item.owner) :
    LibraryFits (items.map (BibliographyItem.restate r))
      (sources.map (BibliographyImportSource.restate r)) links where
  itemIds := by
    rw [List.map_map]
    exact h.itemIds
  itemKeys := by
    rw [List.map_map]
    refine nodup_map_of_imp h.itemKeys fun a ha b hb heq => ?_
    obtain ⟨hid, hkey⟩ := Prod.mk.inj heq
    exact Prod.ext (hr.eq_of_knows (hitems a ha) (hitems b hb) hid) hkey
  sourceIds := by
    rw [List.map_map]
    exact h.sourceIds
  linkKeys := h.linkKeys
  linked link hlink := by
    obtain ⟨source, hsource, hid, item, hitem, hitemId, howner, hrevision⟩ := h.linked link hlink
    exact ⟨_, List.mem_map_of_mem hsource, hid, _, List.mem_map_of_mem hitem, hitemId,
      howner.restate, hrevision⟩

theorem SettingsFit.restate {settings : List MathMacroSettingsSnapshot} (h : SettingsFit settings)
    (hr : Separates r principals) (hsettings : ∀ entry ∈ settings, Knows principals entry.owner) :
    SettingsFit (settings.map (MathMacroSettingsSnapshot.restate r)) where
  owners := by
    rw [List.map_map]
    exact nodup_map_of_imp h.owners fun a ha b hb heq =>
      hr.eq_of_knows (hsettings a ha) (hsettings b hb) heq
  valid := List.forall_mem_map.mpr fun entry hentry => h.valid entry hentry

theorem AttachmentsFit.restate {notes : List Note} {revisions : List NoteRevisionSnapshot}
    {attachments : List (StoredAttachment lib)} {references : List NoteRevisionAttachment}
    (h : AttachmentsFit notes revisions attachments references) :
    AttachmentsFit (notes.map (Note.restate r)) (revisions.map (NoteRevisionSnapshot.restate r))
      (attachments.map (StoredAttachment.restate r)) references where
  attachmentIds := by
    rw [List.map_map]
    exact h.attachmentIds
  ofNote := by
    rw [List.map_map]
    exact List.forall_mem_map.mpr fun attachment hmem => h.ofNote attachment hmem
  count noteId := by
    rw [List.filter_map, List.length_map]
    exact h.count noteId
  bytes noteId := by
    rw [List.filter_map, List.map_map]
    exact h.bytes noteId
  nodup := h.nodup
  ofRevision reference hmem := by
    rw [List.map_map]
    exact h.ofRevision reference hmem
  shown reference hmem := by
    obtain ⟨attachment, hattachment, heq⟩ := h.shown reference hmem
    exact ⟨_, List.mem_map_of_mem hattachment, heq⟩

theorem DistinctPrincipals.restate (h : DistinctPrincipals principals)
    (hr : Separates r principals) : DistinctPrincipals (principals.map (Principal.restate r)) where
  ids := by
    rw [List.map_map]
    exact nodup_map_of_imp h.ids hr
  identities := List.pairwise_map.mpr h.identities

end LogicalSnapshot

/-- Parts that fit still do with other numbers for the same principals. -/
theorem SnapshotParts.Fits.restate {s : LogicalSnapshot lib json} (h : s.parts.Fits)
    (hr : Separates r s.principals) :
    (s.restate r).parts.Fits where
  notes := h.notes.restate hr (fun note hnote => (h.references.notes note hnote).1)
    h.references.noteAcl
  revisions := h.revisions.restate
  library := h.library.restate hr h.references.items
  settings := h.settings.restate hr h.references.mathMacroSettings
  principals := h.principals.restate hr
  attachments := h.attachments.restate
  references := by
    have hrefers := h.references
    refine ⟨List.forall_mem_map.mpr fun note hnote => noteRefers_restate (hrefers.notes note hnote),
      fun entry hentry => ?_, fun attachment hmem => ?_,
      List.forall_mem_map.mpr fun entry hentry => knows_restate (hrefers.noteAcl entry hentry),
      List.forall_mem_map.mpr fun item hitem => knows_restate (hrefers.items item hitem),
      List.forall_mem_map.mpr fun source hsource => knows_restate (hrefers.sources source hsource),
      List.forall_mem_map.mpr fun entry hentry =>
        knows_restate (hrefers.mathMacroSettings entry hentry)⟩
    · obtain ⟨old, hold, rfl⟩ := List.mem_map.mp (Table.mem_orderBy.mp hentry)
      obtain ⟨hchangedBy, hreview⟩ :=
        hrefers.noteRevisions old (Table.mem_orderBy.mpr hold)
      refine ⟨knows_restate hchangedBy, fun review hlast => ?_⟩
      obtain ⟨record, hrecord, rfl⟩ := Option.map_eq_some_iff.mp
        ((NoteReviewTracking.lastReview_restate r old.note.review).symm.trans hlast)
      exact knows_restate (hreview record hrecord)
    · obtain ⟨old, hold, rfl⟩ := List.mem_map.mp (Table.mem_orderBy.mp hmem)
      exact knows_restate (hrefers.attachments old (Table.mem_orderBy.mpr hold))

end Marginalis
