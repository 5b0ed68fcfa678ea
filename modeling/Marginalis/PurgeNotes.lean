import Marginalis.Attachments
import Marginalis.NoLostUpdate
import Marginalis.Projection

/-!
# The purge of deleted notes

`purge_deleted_before` is one `DELETE FROM notes`, and the rest is done by foreign keys.
Deleting a parent row runs the actions of its child tables one after the other, the
foreign key declared last first, and `RESTRICT` fails at once. `deleteNoteRow` writes these
actions out : the grants, citations and references go, then the images, then the history.
An image that a revision shows stops the deletion before the history would have gone.

So the purge does what it is for exactly when no expired note has an image in its history
(`purge_deleted_before_complete_iff`) : `ForeignKeys` holds in every reachable database, and
under it one such row makes the whole statement fail.
-/

namespace Marginalis

namespace Database

variable (db : Database)

/-! ## Deleting a note -/

/-- `DELETE FROM note_attachments` of one row : `ON DELETE RESTRICT` of
`note_revision_attachments`. -/
def deleteAttachmentRow (row : AttachmentRow) : Except SqliteStoreError Database :=
  if db.IsReferenced row.noteId row.attachmentId then .error .database
  else .ok { db with
    noteAttachments := db.noteAttachments.deleteWhere fun r => r.attachmentId = row.attachmentId }

/-- `DELETE FROM note_revisions` of the history of a note : `ON DELETE CASCADE` of
`note_revision_attachments`. -/
def deleteRevisionRows (noteId : NoteId) : Database :=
  { db with
    noteRevisions := db.noteRevisions.deleteWhere fun row => row.noteId = noteId
    noteRevisionAttachments := db.noteRevisionAttachments.deleteWhere fun row =>
      row.noteId = noteId ∧ ∃ history ∈ db.noteRevisions, history.noteId = row.noteId ∧
        history.revision = row.revision }

/-- `DELETE FROM notes` of one row. The parent is gone before its actions run, so the
trigger of a deleted grant finds no note to record a change for. -/
def deleteNoteRow (row : NoteRow) : Except SqliteStoreError Database := do
  let db := { db with notes := db.notes.deleteWhere fun r => r.noteId = row.noteId }
  let db := (db.noteAcl.select fun r => r.noteId = row.noteId).foldl deleteAclRow db
  let db := { db with
    noteCitations := db.noteCitations.deleteWhere fun r => r.sourceNoteId = row.noteId }
  let db := { db with
    noteReferences := db.noteReferences.deleteWhere fun r => r.sourceNoteId = row.noteId }
  let db ← (db.attachmentsOf row.noteId).foldlM deleteAttachmentRow db
  return db.deleteRevisionRows row.noteId

/-- The condition of `purge_deleted_before`. -/
def NoteExpired (cutoff : ℤ) (row : NoteRow) : Prop :=
  ∃ deletedAt ∈ row.deletedAt, deletedAt < cutoff

instance (cutoff : ℤ) : DecidablePred (NoteExpired cutoff) := fun row => by
  unfold NoteExpired
  infer_instance

/-- `purge_deleted_before`, with the number of notes it deleted. -/
def purgeDeletedBefore (cutoff : ℤ) : Except SqliteStoreError (ℕ × Database) := do
  let expired := db.notes.select fun row => NoteExpired cutoff row
  let db ← expired.foldlM deleteNoteRow db
  return (expired.length, db)

/-! ## What the purge is for -/

/-- The note was soft-deleted before the cutoff. -/
def Expired (cutoff : ℤ) (noteId : NoteId) : Prop :=
  ∃ row ∈ db.notes.find noteId, NoteExpired cutoff row

instance (cutoff : ℤ) (noteId : NoteId) : Decidable (db.Expired cutoff noteId) := by
  unfold Expired
  infer_instance

/-- The purge succeeds, and every table that belongs to notes keeps exactly the rows of the
notes that are not expired. -/
def PurgesExactly (cutoff : ℤ) : Prop :=
  ∃ count db', db.purgeDeletedBefore cutoff = .ok (count, db') ∧
    (∀ row, row ∈ db'.notes ↔ row ∈ db.notes ∧ ¬db.Expired cutoff row.noteId) ∧
    (∀ row, row ∈ db'.noteRevisions ↔ row ∈ db.noteRevisions ∧ ¬db.Expired cutoff row.noteId) ∧
    (∀ row, row ∈ db'.noteRevisionAttachments ↔
      row ∈ db.noteRevisionAttachments ∧ ¬db.Expired cutoff row.noteId) ∧
    (∀ row, row ∈ db'.noteAttachments ↔
      row ∈ db.noteAttachments ∧ ¬db.Expired cutoff row.noteId) ∧
    (∀ row, row ∈ db'.noteReferences ↔
      row ∈ db.noteReferences ∧ ¬db.Expired cutoff row.sourceNoteId) ∧
    (∀ row, row ∈ db'.noteCitations ↔
      row ∈ db.noteCitations ∧ ¬db.Expired cutoff row.sourceNoteId) ∧
    ∀ row, row ∈ db'.noteAcl ↔ row ∈ db.noteAcl ∧ ¬db.Expired cutoff row.noteId

/-! ## The actions of one deletion -/

/-- `db'` has the rows of `db` that do not belong to the notes `ns`. -/
structure WithoutNotes (db db' : Database) (ns : List NoteId) : Prop where
  notes : ∀ row, row ∈ db'.notes ↔ row ∈ db.notes ∧ row.noteId ∉ ns
  noteRevisions : ∀ row, row ∈ db'.noteRevisions ↔ row ∈ db.noteRevisions ∧ row.noteId ∉ ns
  noteAttachments : ∀ row, row ∈ db'.noteAttachments ↔ row ∈ db.noteAttachments ∧ row.noteId ∉ ns
  noteReferences : ∀ row, row ∈ db'.noteReferences ↔
    row ∈ db.noteReferences ∧ row.sourceNoteId ∉ ns
  noteCitations : ∀ row, row ∈ db'.noteCitations ↔ row ∈ db.noteCitations ∧ row.sourceNoteId ∉ ns
  noteAcl : ∀ row, row ∈ db'.noteAcl ↔ row ∈ db.noteAcl ∧ row.noteId ∉ ns
  noteRevisionAttachments : db'.noteRevisionAttachments = db.noteRevisionAttachments

variable {db} {db' db'' : Database} {noteId : NoteId} {ns ms : List NoteId}

theorem WithoutNotes.refl (db : Database) : db.WithoutNotes db [] := by
  constructor <;> simp

theorem WithoutNotes.trans (h : db.WithoutNotes db' ns) (h' : db'.WithoutNotes db'' ms) :
    db.WithoutNotes db'' (ns ++ ms) where
  notes row := by rw [h'.notes, h.notes, List.mem_append, not_or, and_assoc]
  noteRevisions row := by
    rw [h'.noteRevisions, h.noteRevisions, List.mem_append, not_or, and_assoc]
  noteAttachments row := by
    rw [h'.noteAttachments, h.noteAttachments, List.mem_append, not_or, and_assoc]
  noteReferences row := by
    rw [h'.noteReferences, h.noteReferences, List.mem_append, not_or, and_assoc]
  noteCitations row := by
    rw [h'.noteCitations, h.noteCitations, List.mem_append, not_or, and_assoc]
  noteAcl row := by rw [h'.noteAcl, h.noteAcl, List.mem_append, not_or, and_assoc]
  noteRevisionAttachments := h'.noteRevisionAttachments.trans h.noteRevisionAttachments

/-- Deleting grants one after the other leaves the others. -/
theorem mem_noteAcl_deleteAclRows (rows : List AclRow) (db : Database) {r : AclRow} :
    r ∈ (rows.foldl deleteAclRow db).noteAcl ↔
      r ∈ db.noteAcl ∧
        ∀ row ∈ rows, ¬(r.noteId = row.noteId ∧ r.principalId = row.principalId) := by
  induction rows generalizing db with
  | nil => simp
  | cons row rows ih =>
    rw [List.foldl_cons, ih, noteAcl_deleteAclRow, Table.mem_deleteWhere]
    simp only [decide_eq_false_iff_not, List.forall_mem_cons, and_assoc]

/-- Images that no revision shows are deleted one after the other. -/
theorem deleteAttachmentRows_ok {rows : List AttachmentRow}
    (h : ∀ row ∈ rows, ¬db.IsReferenced row.noteId row.attachmentId) :
    ∃ attachments, rows.foldlM deleteAttachmentRow db =
        .ok { db with noteAttachments := attachments } ∧
      ∀ r, r ∈ attachments ↔ r ∈ db.noteAttachments ∧
        ∀ row ∈ rows, r.attachmentId ≠ row.attachmentId := by
  induction rows generalizing db with
  | nil => exact ⟨db.noteAttachments, rfl, by simp⟩
  | cons row rows ih =>
    have hrow := h row (List.mem_cons_self ..)
    set deleted : Database := { db with
      noteAttachments := db.noteAttachments.deleteWhere fun r =>
        r.attachmentId = row.attachmentId }
    have hrest : ∀ r ∈ rows, ¬deleted.IsReferenced r.noteId r.attachmentId :=
      fun r hr => h r (List.mem_cons_of_mem _ hr)
    obtain ⟨attachments, hfold, hmem⟩ := ih hrest
    refine ⟨attachments, ?_, fun r => ?_⟩
    · rw [List.foldlM_cons, deleteAttachmentRow, if_neg hrow]
      exact hfold
    · rw [hmem, Table.mem_deleteWhere]
      simp only [decide_eq_false_iff_not, List.forall_mem_cons, and_assoc, ne_eq]

/-- The first image that a revision shows stops the deletion. -/
theorem deleteAttachmentRows_error {rows : List AttachmentRow}
    (h : ∃ row ∈ rows, db.IsReferenced row.noteId row.attachmentId) :
    rows.foldlM deleteAttachmentRow db = .error .database := by
  induction rows generalizing db with
  | nil => simp at h
  | cons row rows ih =>
    rw [List.foldlM_cons, deleteAttachmentRow]
    split_ifs with hrow
    · rfl
    · refine ih ?_
      obtain ⟨r, hr, href⟩ := h
      rcases List.mem_cons.mp hr with rfl | hr
      · exact absurd href hrow
      · exact ⟨r, hr, href⟩

/-- The note's row, its grants and its links are gone when its images are looked at. -/
theorem deleteNoteRow_eq (db : Database) (row : NoteRow) : ∃ db₀ : Database,
    db.deleteNoteRow row = ((db₀.attachmentsOf row.noteId).foldlM deleteAttachmentRow db₀).map
      (fun db => db.deleteRevisionRows row.noteId) ∧
    (db₀.principals = db.principals ∧ db₀.principalIdentities = db.principalIdentities) ∧
    db₀.noteAttachments = db.noteAttachments ∧ db₀.noteRevisions = db.noteRevisions ∧
    db₀.noteRevisionAttachments = db.noteRevisionAttachments ∧
    (∀ r, r ∈ db₀.notes ↔ r ∈ db.notes ∧ r.noteId ≠ row.noteId) ∧
    (∀ r, r ∈ db₀.noteReferences ↔ r ∈ db.noteReferences ∧ r.sourceNoteId ≠ row.noteId) ∧
    (∀ r, r ∈ db₀.noteCitations ↔ r ∈ db.noteCitations ∧ r.sourceNoteId ≠ row.noteId) ∧
    ∀ r, r ∈ db₀.noteAcl ↔ r ∈ db.noteAcl ∧ r.noteId ≠ row.noteId := by
  set gone : Database := { db with notes := db.notes.deleteWhere fun r => r.noteId = row.noteId }
  set shared : Database :=
    (gone.noteAcl.select fun r => r.noteId = row.noteId).foldl deleteAclRow gone with hshared
  have hsame : gone.SameContent shared := sameContent_deleteAclRows _ _
  refine ⟨{ shared with
    noteCitations := shared.noteCitations.deleteWhere fun r => r.sourceNoteId = row.noteId
    noteReferences := shared.noteReferences.deleteWhere fun r => r.sourceNoteId = row.noteId },
    ?_, ⟨hsame.principals, hsame.principalIdentities⟩, hsame.noteAttachments,
    hsame.noteRevisions, hsame.noteRevisionAttachments, fun r => ?_, fun r => ?_, fun r => ?_,
    fun r => ?_⟩
  · rfl
  · show r ∈ shared.notes ↔ _
    rw [hsame.notes, Table.mem_deleteWhere]
    simp
  · rw [Table.mem_deleteWhere, hsame.noteReferences]
    simp [gone]
  · rw [Table.mem_deleteWhere, hsame.noteCitations]
    simp [gone]
  · show r ∈ shared.noteAcl ↔ _
    rw [hshared, mem_noteAcl_deleteAclRows]
    refine and_congr_right fun hr => ?_
    constructor
    · intro h hid
      exact h r (Table.mem_select.mpr ⟨hr, by simpa using hid⟩) ⟨rfl, rfl⟩
    · rintro h row' hrow' ⟨hid, -⟩
      have := (Table.mem_select.mp hrow').2
      simp only [decide_eq_true_eq] at this
      exact h (hid.trans this)

/-- A note none of whose images is in its history is deleted with everything it owns. -/
theorem deleteNoteRow_ok {row : NoteRow}
    (h : ∀ shown ∈ db.noteRevisionAttachments, shown.noteId ≠ row.noteId) :
    ∃ db', db.deleteNoteRow row = .ok db' ∧ db.WithoutNotes db' [row.noteId] := by
  obtain ⟨db₀, hdelete, -, hatt, hrev, hshown, hnotes, href, hcit, hacl⟩ := deleteNoteRow_eq db row
  have hunused : ∀ r ∈ db₀.attachmentsOf row.noteId,
      ¬db₀.IsReferenced r.noteId r.attachmentId := by
    rintro r hr ⟨shown, hmem, hid, -⟩
    have hr' := (Table.mem_select.mp hr).2
    simp only [decide_eq_true_eq] at hr'
    rw [hshown] at hmem
    exact h shown hmem (hid.trans hr')
  obtain ⟨attachments, hfold, hmem⟩ := deleteAttachmentRows_ok hunused
  refine ⟨_, by rw [hdelete, hfold]; rfl, fun r => ?_, fun r => ?_, fun r => ?_, ?_, ?_, ?_, ?_⟩
  · show r ∈ db₀.notes ↔ _
    rw [hnotes, List.mem_singleton]
  · show r ∈ db₀.noteRevisions.deleteWhere _ ↔ _
    rw [Table.mem_deleteWhere, hrev]
    simp
  · show r ∈ attachments ↔ _
    rw [hmem, hatt, List.mem_singleton]
    refine and_congr_right fun hr => ?_
    constructor
    · intro hne hid
      exact hne r (Table.mem_select.mpr ⟨hatt ▸ hr, by simpa using hid⟩) rfl
    · intro hne r' hr' hid
      obtain ⟨hmem', hid'⟩ := Table.mem_select.mp hr'
      simp only [decide_eq_true_eq] at hid'
      exact hne (Table.eq_of_key_eq hr (hatt ▸ hmem') hid ▸ hid')
  · simpa [deleteRevisionRows] using href
  · simpa [deleteRevisionRows] using hcit
  · simpa [deleteRevisionRows] using hacl
  · refine Table.ext_rows ?_
    show (db₀.noteRevisionAttachments.deleteWhere _).rows = _
    rw [hshown]
    refine List.filter_eq_self.mpr fun shown hmem => ?_
    simp [h shown hmem]

/-- A note with an image in its history is not deleted. -/
theorem deleteNoteRow_error {row : NoteRow} (h : ∃ attachment ∈ db.noteAttachments,
    attachment.noteId = row.noteId ∧ db.IsReferenced row.noteId attachment.attachmentId) :
    db.deleteNoteRow row = .error .database := by
  obtain ⟨db₀, hdelete, -, hatt, -, hshown, -⟩ := deleteNoteRow_eq db row
  obtain ⟨attachment, hmem, hid, href⟩ := h
  rw [hdelete, deleteAttachmentRows_error]
  · rfl
  · refine ⟨attachment, Table.mem_select.mpr ⟨hatt ▸ hmem, by simpa using hid⟩, ?_⟩
    unfold IsReferenced
    rw [hshown, hid]
    exact href

/-! ## What the deletion leaves alone -/

theorem SameChanges.trans (h : db.SameChanges db') (h' : db'.SameChanges db'') :
    db.SameChanges db'' where
  domainChanges := h'.domainChanges.trans h.domainChanges
  lastChangeSequence := h'.lastChangeSequence.trans h.lastChangeSequence
  latestNoteChangeSequence := h'.latestNoteChangeSequence.trans h.latestNoteChangeSequence
  noteSyncProjection := h'.noteSyncProjection.trans h.noteSyncProjection
  noteSyncCursors := h'.noteSyncCursors.trans h.noteSyncCursors
  webhookSubscriptions := h'.webhookSubscriptions.trans h.webhookSubscriptions
  webhookDeliveries := h'.webhookDeliveries.trans h.webhookDeliveries

/-- The grants of a note that is gone go without a recorded change. -/
theorem sameChanges_deleteAclRows {rows : List AclRow}
    (h : ∀ row ∈ rows, db.notes.find row.noteId = none) :
    db.SameChanges (rows.foldl deleteAclRow db) := by
  induction rows generalizing db with
  | nil => exact .of_eq rfl
  | cons row rows ih =>
    have hrow : db.deleteAclRow row = { db with noteAcl := db.noteAcl.deleteWhere fun r =>
        r.noteId = row.noteId ∧ r.principalId = row.principalId } := by
      unfold deleteAclRow recordAccessChange
      simp only [h row (List.mem_cons_self ..)]
    rw [List.foldl_cons, hrow]
    refine SameChanges.trans ?_ (ih fun r hr => h r (List.mem_cons_of_mem _ hr))
    exact ⟨rfl, rfl, rfl, rfl, rfl, rfl, rfl⟩

theorem sameChanges_deleteNoteRow {row : NoteRow} (h : db.deleteNoteRow row = .ok db') :
    db.SameChanges db' := by
  set gone : Database := { db with notes := db.notes.deleteWhere fun r => r.noteId = row.noteId }
  have hshared : gone.SameChanges
      ((gone.noteAcl.select fun r => r.noteId = row.noteId).foldl deleteAclRow gone) := by
    refine sameChanges_deleteAclRows fun r hr => ?_
    have hid := (Table.mem_select.mp hr).2
    simp only [decide_eq_true_eq] at hid
    rw [hid, Table.find_eq_none]
    intro note hnote hkey
    have hne := (Table.mem_deleteWhere.mp hnote).2
    simp only [decide_eq_false_iff_not] at hne
    exact hne hkey
  obtain ⟨unused, hunused, h⟩ := Except.bind_eq_ok.mp h
  cases h
  have hdeleted := Except.foldlM_invariant (P := gone.SameChanges) hunused
    (hshared.trans ⟨rfl, rfl, rfl, rfl, rfl, rfl, rfl⟩) fun s r t _ hs hstep => by
      unfold deleteAttachmentRow at hstep
      split_ifs at hstep
      cases hstep
      exact hs.trans ⟨rfl, rfl, rfl, rfl, rfl, rfl, rfl⟩
  have hfirst : db.SameChanges gone := ⟨rfl, rfl, rfl, rfl, rfl, rfl, rfl⟩
  have hlast : unused.SameChanges (unused.deleteRevisionRows row.noteId) :=
    ⟨rfl, rfl, rfl, rfl, rfl, rfl, rfl⟩
  exact hfirst.trans (hdeleted.trans hlast)

/-- The purge of notes records no change and leaves the deliveries alone. -/
theorem sameChanges_purgeDeletedBefore {cutoff : ℤ} {count : ℕ}
    (h : db.purgeDeletedBefore cutoff = .ok (count, db')) : db.SameChanges db' := by
  obtain ⟨deleted, hdeleted, h⟩ := Except.bind_eq_ok.mp h
  cases h
  exact Except.foldlM_invariant (P := db.SameChanges) hdeleted (.of_eq rfl)
    fun s r t _ hs hstep => hs.trans (sameChanges_deleteNoteRow hstep)

/-! ## The whole purge -/

/-- Deleting notes none of whose images is in their history. -/
theorem deleteNoteRows_ok {rows : List NoteRow}
    (h : ∀ row ∈ rows, ∀ shown ∈ db.noteRevisionAttachments, shown.noteId ≠ row.noteId) :
    ∃ db', rows.foldlM deleteNoteRow db = .ok db' ∧
      db.WithoutNotes db' (rows.map NoteRow.noteId) := by
  induction rows generalizing db with
  | nil => exact ⟨db, rfl, .refl db⟩
  | cons row rows ih =>
    obtain ⟨db₁, hrow, hwithout⟩ := deleteNoteRow_ok (h row (List.mem_cons_self ..))
    have h₁ : ∀ r ∈ rows, ∀ shown ∈ db₁.noteRevisionAttachments, shown.noteId ≠ r.noteId := by
      intro r hr shown hshown
      exact h r (List.mem_cons_of_mem _ hr) shown (hwithout.noteRevisionAttachments ▸ hshown)
    obtain ⟨db₂, hrows, hwithout'⟩ := ih h₁
    refine ⟨db₂, ?_, by simpa using hwithout.trans hwithout'⟩
    rw [List.foldlM_cons, hrow]
    exact hrows

/-- Every image a revision shows is stored, with the note of the revision. -/
def ForeignKeys (db : Database) : Prop :=
  ∀ shown ∈ db.noteRevisionAttachments, ∃ attachment ∈ db.noteAttachments,
    attachment.attachmentId = shown.attachmentId ∧ attachment.noteId = shown.noteId

/-- One note with an image in its history among those to delete fails the statement. -/
theorem deleteNoteRows_error (hkeys : db.ForeignKeys) {rows : List NoteRow}
    (hnodup : (rows.map NoteRow.noteId).Nodup)
    (h : ∃ row ∈ rows, ∃ shown ∈ db.noteRevisionAttachments, shown.noteId = row.noteId) :
    ∃ e, rows.foldlM deleteNoteRow db = .error e := by
  induction rows generalizing db with
  | nil => simp at h
  | cons row rows ih =>
    rw [List.map_cons, List.nodup_cons] at hnodup
    by_cases hrow : ∃ shown ∈ db.noteRevisionAttachments, shown.noteId = row.noteId
    · obtain ⟨shown, hshown, hid⟩ := hrow
      obtain ⟨attachment, hmem, ha, hn⟩ := hkeys shown hshown
      refine ⟨.database, ?_⟩
      rw [List.foldlM_cons, deleteNoteRow_error ⟨attachment, hmem, hn.trans hid, shown, hshown,
        hid, ha.symm⟩]
      rfl
    · have hrow' : ∀ shown ∈ db.noteRevisionAttachments, shown.noteId ≠ row.noteId :=
        fun shown hshown hid => hrow ⟨shown, hshown, hid⟩
      obtain ⟨db₁, hdelete, hwithout⟩ := deleteNoteRow_ok hrow'
      have hkeys₁ : db₁.ForeignKeys := by
        intro shown hshown
        rw [hwithout.noteRevisionAttachments] at hshown
        obtain ⟨attachment, hmem, ha, hn⟩ := hkeys shown hshown
        refine ⟨attachment, (hwithout.noteAttachments _).mpr ⟨hmem, ?_⟩, ha, hn⟩
        rw [List.mem_singleton, hn]
        exact hrow' shown hshown
      obtain ⟨r, hr, shown, hshown, hid⟩ := h
      have hr' : r ∈ rows := by
        rcases List.mem_cons.mp hr with rfl | hr
        · exact absurd hid (hrow' shown hshown)
        · exact hr
      obtain ⟨e, he⟩ := ih hkeys₁ hnodup.2
        ⟨r, hr', shown, hwithout.noteRevisionAttachments ▸ hshown, hid⟩
      refine ⟨e, ?_⟩
      rw [List.foldlM_cons, hdelete]
      exact he

theorem mem_expired_iff {cutoff : ℤ} :
    noteId ∈ (db.notes.select fun row => NoteExpired cutoff row).map NoteRow.noteId ↔
      db.Expired cutoff noteId := by
  rw [List.mem_map]
  constructor
  · rintro ⟨row, hrow, rfl⟩
    obtain ⟨hmem, hexpired⟩ := Table.mem_select.mp hrow
    exact ⟨row, Table.find_of_mem hmem, by simpa using hexpired⟩
  · rintro ⟨row, hrow, hexpired⟩
    exact ⟨row, Table.mem_select.mpr ⟨Table.mem_of_find hrow, by simpa using hexpired⟩,
      Table.key_of_find hrow⟩

/-- What a purge without an image in the way does. -/
theorem purgeDeletedBefore_ok {cutoff : ℤ}
    (h : ∀ shown ∈ db.noteRevisionAttachments, ¬db.Expired cutoff shown.noteId) :
    ∃ count db' ns, db.purgeDeletedBefore cutoff = .ok (count, db') ∧ db.WithoutNotes db' ns ∧
      ∀ n, n ∈ ns ↔ db.Expired cutoff n := by
  have hunused : ∀ row ∈ db.notes.select fun row => NoteExpired cutoff row,
      ∀ shown ∈ db.noteRevisionAttachments, shown.noteId ≠ row.noteId := by
    intro row hrow shown hshown hid
    exact h shown hshown (mem_expired_iff.mp (List.mem_map.mpr ⟨row, hrow, hid.symm⟩))
  obtain ⟨db', hfold, hwithout⟩ := deleteNoteRows_ok hunused
  refine ⟨(db.notes.select fun row => NoteExpired cutoff row).length, db', _, ?_, hwithout,
    fun n => mem_expired_iff⟩
  unfold purgeDeletedBefore
  dsimp only
  rw [hfold]
  rfl

/-- An image in the history of an expired note fails the purge of all. -/
theorem purgeDeletedBefore_error (hkeys : db.ForeignKeys) {cutoff : ℤ}
    (h : ∃ shown ∈ db.noteRevisionAttachments, db.Expired cutoff shown.noteId) :
    ∃ e, db.purgeDeletedBefore cutoff = .error e := by
  obtain ⟨shown, hshown, hexpired⟩ := h
  obtain ⟨row, hrow, hid⟩ := List.mem_map.mp (mem_expired_iff.mpr hexpired)
  have hnodup : ((db.notes.select fun row => NoteExpired cutoff row).map NoteRow.noteId).Nodup :=
    Table.nodup_select
  obtain ⟨e, he⟩ := deleteNoteRows_error hkeys hnodup ⟨row, hrow, shown, hshown, hid.symm⟩
  refine ⟨e, ?_⟩
  unfold purgeDeletedBefore
  dsimp only
  rw [he]
  rfl

/-! ## The foreign keys in every reachable database -/

/-- Rows a statement adds to what revisions show name stored images of their note. -/
theorem ForeignKeys.of_mem (hkeys : db.ForeignKeys)
    (hattachments : ∀ row, row ∈ db.noteAttachments → row ∈ db'.noteAttachments)
    (hshown : ∀ shown ∈ db'.noteRevisionAttachments, shown ∈ db.noteRevisionAttachments ∨
      ∃ attachment ∈ db.noteAttachments,
        attachment.attachmentId = shown.attachmentId ∧ attachment.noteId = shown.noteId) :
    db'.ForeignKeys := by
  intro shown hmem
  obtain ⟨attachment, hattachment, hid⟩ : ∃ attachment ∈ db.noteAttachments,
      attachment.attachmentId = shown.attachmentId ∧ attachment.noteId = shown.noteId := by
    rcases hshown shown hmem with hold | hnew
    · exact hkeys shown hold
    · exact hnew
  exact ⟨attachment, hattachments attachment hattachment, hid⟩

theorem ForeignKeys.insertNoteRevision {changedBy : PrincipalId} {kind : NoteRevisionKind}
    (hkeys : db.ForeignKeys) (h : db.insertNoteRevision noteId changedBy kind = .ok db') :
    db'.ForeignKeys := by
  obtain ⟨row, revisions, -, -, -, -, rfl⟩ := insertNoteRevision_eq_ok.mp h
  refine hkeys.of_mem (fun r hr => hr) fun shown hmem => ?_
  rcases (Table.mem_upsertAll id fun _ _ => rfl).mp hmem with hnew | ⟨hold, -⟩
  · right
    obtain ⟨previous, hprevious, rfl⟩ := List.mem_map.mp hnew
    obtain ⟨hmem', hid⟩ := Table.mem_select.mp hprevious
    simp only [decide_eq_true_eq] at hid
    obtain ⟨attachment, hattachment, ha, hn⟩ := hkeys previous hmem'
    exact ⟨attachment, hattachment, ha, hn.trans hid.1⟩
  · exact Or.inl hold

theorem ForeignKeys.insertRevisionAttachment {revision : ℕ} {attachmentId : AttachmentId}
    (hkeys : db.ForeignKeys)
    (h : Database.insertRevisionAttachment noteId revision db attachmentId = .ok db') :
    db'.ForeignKeys := by
  obtain ⟨attachment, rows, hfind, hn, hinsert, rfl⟩ := insertRevisionAttachment_eq_ok.mp h
  refine hkeys.of_mem (fun r hr => hr) fun shown hmem => ?_
  rcases (Table.mem_insert? hinsert).mp hmem with hold | rfl
  · exact Or.inl hold
  · exact Or.inr ⟨attachment, Table.mem_of_find hfind, Table.key_of_find hfind, hn⟩

theorem ForeignKeys.replaceNoteRevisionAttachments {attachmentIds : List AttachmentId}
    (hkeys : db.ForeignKeys)
    (h : db.replaceNoteRevisionAttachments noteId attachmentIds = .ok db') :
    db'.ForeignKeys := by
  unfold Database.replaceNoteRevisionAttachments at h
  cases hrow : db.notes.find noteId with
  | none =>
    rw [hrow] at h
    cases h
  | some row =>
    rw [hrow] at h
    refine Except.foldlM_invariant (P := ForeignKeys) h ?_
      fun _ _ _ _ hs hstep => hs.insertRevisionAttachment hstep
    exact hkeys.of_mem (fun r hr => hr) fun shown hmem => Or.inl (Table.mem_deleteWhere.mp hmem).1

theorem ForeignKeys.noteCommand {c : NoteCommand} (hkeys : db.ForeignKeys)
    (h : c.exec db = .ok db') : db'.ForeignKeys := by
  obtain ⟨written, shared, recorded, hw, hs, -, hr, ha⟩ := NoteCommand.exec_stages h
  have hwritten : written.ForeignKeys := by
    cases hw with
    | insert hnew h =>
      obtain ⟨notes, -, -, -, rfl⟩ := insertNoteRow_eq_ok.mp h
      exact hkeys
    | update hold hguard h =>
      obtain ⟨-, rfl⟩ := updateNoteRow_eq_ok.mp h
      exact hkeys
  have hsame := hs.sameContent
  have hshared : shared.ForeignKeys := by
    unfold ForeignKeys
    rw [hsame.noteRevisionAttachments, hsame.noteAttachments]
    exact hwritten
  have hrecorded : recorded.ForeignKeys := by
    unfold NoteCommand.Records at hr
    cases hlinks : c.links with
    | none =>
      rw [hlinks] at hr
      exact hshared.insertNoteRevision hr
    | some links =>
      rw [hlinks] at hr
      have hlinked : (shared.replaceLinkRows c.noteId links).ForeignKeys := hshared
      exact hlinked.insertNoteRevision hr
  unfold NoteCommand.Attaches at ha
  cases hlinks : c.links with
  | none =>
    rw [hlinks] at ha
    exact ha ▸ hrecorded
  | some links =>
    rw [hlinks] at ha
    exact hrecorded.replaceNoteRevisionAttachments ha

/-- An image goes only when no revision shows it. -/
theorem ForeignKeys.deleteUnused (hkeys : db.ForeignKeys) {p : AttachmentRow → Bool}
    (hp : ∀ row, p row = true → ¬db.IsReferenced row.noteId row.attachmentId) :
    ForeignKeys { db with noteAttachments := db.noteAttachments.deleteWhere p } := by
  intro shown hmem
  obtain ⟨attachment, hattachment, ha, hn⟩ := hkeys shown hmem
  refine ⟨attachment, Table.mem_deleteWhere.mpr ⟨hattachment, ?_⟩, ha, hn⟩
  rw [← Bool.not_eq_true]
  intro h
  exact hp attachment h ⟨shown, hmem, hn.symm, ha.symm⟩

variable {lib : AttachmentLibrary}

theorem ForeignKeys.attachmentCommand {c : AttachmentCommand lib} (hkeys : db.ForeignKeys)
    (h : c.exec db = .ok db') : db'.ForeignKeys := by
  rcases AttachmentCommand.exec_cases h with
    ⟨actor, attachment, rows, -, -, -, -, -, hinsert, rfl⟩ | ⟨noteId, attachmentId, hunused, rfl⟩
  · refine hkeys.of_mem (fun r hr => ?_) fun shown hmem => Or.inl hmem
    exact (Table.mem_insert? hinsert).mpr (Or.inl hr)
  · refine hkeys.deleteUnused fun row hrow => ?_
    simp only [decide_eq_true_eq] at hrow
    rw [hrow.1, hrow.2]
    exact hunused

/-- A purge that succeeded met no image in a history. -/
theorem ForeignKeys.purgeDeletedBefore {cutoff : ℤ} {count : ℕ} (hkeys : db.ForeignKeys)
    (h : db.purgeDeletedBefore cutoff = .ok (count, db')) : db'.ForeignKeys := by
  by_cases hshown : ∃ shown ∈ db.noteRevisionAttachments, db.Expired cutoff shown.noteId
  · obtain ⟨e, he⟩ := purgeDeletedBefore_error hkeys hshown
    rw [he] at h
    cases h
  · have hnone : ∀ shown ∈ db.noteRevisionAttachments, ¬db.Expired cutoff shown.noteId :=
      fun shown hmem hexpired => hshown ⟨shown, hmem, hexpired⟩
    obtain ⟨count', db'', ns, hok, hwithout, hns⟩ := purgeDeletedBefore_ok hnone
    rw [h] at hok
    cases hok
    intro shown hmem
    rw [hwithout.noteRevisionAttachments] at hmem
    obtain ⟨attachment, hattachment, ha, hn⟩ := hkeys shown hmem
    refine ⟨attachment, (hwithout.noteAttachments _).mpr ⟨hattachment, ?_⟩, ha, hn⟩
    rw [hns, hn]
    exact hnone shown hmem

/-- A transaction of the store. The archive restore inserts images and what revisions show
row by row, under the same constraints, and every other transaction leaves both tables
alone. -/
inductive StoreStep (lib : AttachmentLibrary) (db : Database) : Database → Prop
  | note (c : NoteCommand) : StoreStep lib db (db.commit (c.exec db))
  | attachment (c : AttachmentCommand lib) : StoreStep lib db (db.commit (c.exec db))
  | purgeAttachments (cutoff : ℤ) :
      StoreStep lib db (db.purgeUnreferencedNoteAttachmentsBefore cutoff).2
  | purgeNotes (cutoff : ℤ) :
      StoreStep lib db (db.commit ((db.purgeDeletedBefore cutoff).map Prod.snd))
  | restoreAttachment {row : AttachmentRow} {rows : Table AttachmentRow}
      (hinsert : db.noteAttachments.insert? row = some rows) :
      StoreStep lib db { db with noteAttachments := rows }
  | restoreShown {noteId : NoteId} {revision : ℕ} {attachmentId : AttachmentId} {db' : Database}
      (h : insertRevisionAttachment noteId revision db attachmentId = .ok db') :
      StoreStep lib db db'
  | elsewhere {db' : Database} (hattachments : db'.noteAttachments = db.noteAttachments)
      (hshown : db'.noteRevisionAttachments = db.noteRevisionAttachments) : StoreStep lib db db'

/-- The databases a service can have. -/
def Reachable (lib : AttachmentLibrary) (db : Database) : Prop :=
  Relation.ReflTransGen (StoreStep lib) empty db

theorem StoreStep.foreignKeys (hkeys : db.ForeignKeys) (h : StoreStep lib db db') :
    db'.ForeignKeys := by
  cases h with
  | note c =>
    cases hexec : c.exec db with
    | error e => exact hkeys
    | ok db' => exact hkeys.noteCommand hexec
  | attachment c =>
    cases hexec : c.exec db with
    | error e => exact hkeys
    | ok db' => exact hkeys.attachmentCommand hexec
  | purgeAttachments cutoff =>
    refine hkeys.deleteUnused fun row hrow => ?_
    simp only [decide_eq_true_eq] at hrow
    exact hrow.2
  | purgeNotes cutoff =>
    cases hpurge : db.purgeDeletedBefore cutoff with
    | error e => exact hkeys
    | ok purged => exact hkeys.purgeDeletedBefore hpurge
  | restoreAttachment hinsert =>
    exact hkeys.of_mem (fun r hr => (Table.mem_insert? hinsert).mpr (Or.inl hr))
      fun shown hmem => Or.inl hmem
  | restoreShown h => exact hkeys.insertRevisionAttachment h
  | elsewhere hattachments hshown =>
    unfold ForeignKeys
    rw [hattachments, hshown]
    exact hkeys

theorem Reachable.foreignKeys (h : Reachable lib db) : db.ForeignKeys := by
  induction h with
  | refl =>
    intro shown hmem
    cases hmem
  | tail _ hstep ih => exact hstep.foreignKeys ih

/-- In every reachable database the purge does what it is for exactly when no note deleted
before the cutoff has an image in its history. -/
theorem purge_deleted_before_complete_iff (h : Reachable lib db) (cutoff : ℤ) :
    db.PurgesExactly cutoff ↔
      ∀ shown ∈ db.noteRevisionAttachments, ¬db.Expired cutoff shown.noteId := by
  constructor
  · rintro ⟨count, db', hok, -⟩ shown hshown hexpired
    obtain ⟨e, he⟩ := purgeDeletedBefore_error h.foreignKeys ⟨shown, hshown, hexpired⟩
    rw [he] at hok
    cases hok
  · intro hnone
    obtain ⟨count, db', ns, hok, hwithout, hns⟩ := purgeDeletedBefore_ok hnone
    refine ⟨count, db', hok, fun row => ?_, fun row => ?_, fun row => ?_, fun row => ?_,
      fun row => ?_, fun row => ?_, fun row => ?_⟩
    · rw [hwithout.notes, hns]
    · rw [hwithout.noteRevisions, hns]
    · rw [hwithout.noteRevisionAttachments]
      exact ⟨fun hmem => ⟨hmem, hnone row hmem⟩, fun hmem => hmem.1⟩
    · rw [hwithout.noteAttachments, hns]
    · rw [hwithout.noteReferences, hns]
    · rw [hwithout.noteCitations, hns]
    · rw [hwithout.noteAcl, hns]

end Database

/-! ## A deleted note with an image -/

/-- The smallest PNG the store accepts. -/
def smallPng : List UInt8 :=
  [0x89, 0x50, 0x4E, 0x47, 0x0D, 0x0A, 0x1A, 0x0A, 0, 0, 0, 13, 0x49, 0x48, 0x44, 0x52,
    0, 0, 0, 1, 0, 0, 0, 1]

/-- Normalization of ASCII names, and the digest of `smallPng`. -/
def asciiLibrary : AttachmentLibrary where
  nfc s := s
  sha256 bytes :=
    if bytes = smallPng then 0xa930c2bb4e61c0682068f71c4ef427eefbb07098ecea9390e445e7af4b66a384
    else 0
  nfc_trim_idem := trim_trim

/-- The image Alice uploads to her note 7. -/
def figure : StoredAttachment asciiLibrary where
  metadata :=
    { attachmentId := ⟨9⟩
      noteId := ⟨7⟩
      fileName := "a.png"
      mediaType := .png
      byteLength := 24
      sha256 := 0xa930c2bb4e61c0682068f71c4ef427eefbb07098ecea9390e445e7af4b66a384
      createdAt := 150
      createdBy := Database.alice.principal }
  bytes := smallPng
  metadata_valid := by rfl
  bytes_valid := by decide

/-- Alice creates a note, uploads an image, names it in the source and deletes the note. -/
def illustratedThenDeleted : Database :=
  let db := Database.twoPrincipals
  let db := db.commit <| NoteCommand.exec db <|
    .create Database.alice ⟨7⟩ ⟨"A", "= A", []⟩ ⟨[], [], []⟩ 100 .web
  let db := db.commit <| AttachmentCommand.exec db <| .create Database.alice figure
  let db := db.commit <| NoteCommand.exec db <|
    .update Database.alice ⟨7⟩ 1 ⟨"A", "= A\n\nimage::9[]", []⟩ ⟨[], [], [⟨9⟩]⟩ 200
  db.commit <| NoteCommand.exec db <| .softDelete Database.alice ⟨7⟩ 2 300

theorem reachable_illustratedThenDeleted :
    Database.Reachable asciiLibrary illustratedThenDeleted := by
  have hlogins : Database.Reachable asciiLibrary Database.twoPrincipals :=
    .single (.elsewhere rfl rfl)
  unfold illustratedThenDeleted
  exact (((hlogins.tail (.note _)).tail (.attachment _)).tail (.note _)).tail (.note _)

/-- The history of that note keeps it from being purged, and the purge fails. -/
theorem purge_deleted_before_fails :
    ∃ db, Database.Reachable asciiLibrary db ∧ db.Expired 400 ⟨7⟩ ∧ ¬db.PurgesExactly 400 := by
  refine ⟨illustratedThenDeleted, reachable_illustratedThenDeleted, ⟨_, rfl, 300, rfl, by decide⟩,
    ?_⟩
  rintro ⟨count, db', h, -⟩
  have hfailed : illustratedThenDeleted.purgeDeletedBefore 400 = .error .database := by rfl
  rw [hfailed] at h
  cases h

/-- Alice keeps the illustrated note, shares another one with Bob and deletes that. -/
def illustratedBesideDeleted : Database :=
  let db := Database.twoPrincipals
  let db := db.commit <| NoteCommand.exec db <|
    .create Database.alice ⟨7⟩ ⟨"A", "= A", []⟩ ⟨[], [], []⟩ 100 .web
  let db := db.commit <| AttachmentCommand.exec db <| .create Database.alice figure
  let db := db.commit <| NoteCommand.exec db <|
    .update Database.alice ⟨7⟩ 1 ⟨"A", "= A\n\nimage::9[]", []⟩ ⟨[], [], [⟨9⟩]⟩ 200
  let db := db.commit <| NoteCommand.exec db <|
    .create Database.alice ⟨8⟩ ⟨"B", "= B", []⟩ ⟨[⟨7⟩], ["doe2024"], []⟩ 210 .web
  let db := db.commit <| NoteCommand.exec db <|
    .replaceAcl Database.alice ⟨8⟩ [⟨Database.bob.principal, .read⟩] 1 220
  db.commit <| NoteCommand.exec db <| .softDelete Database.alice ⟨8⟩ 2 300

theorem reachable_illustratedBesideDeleted :
    Database.Reachable asciiLibrary illustratedBesideDeleted := by
  have hlogins : Database.Reachable asciiLibrary Database.twoPrincipals :=
    .single (.elsewhere rfl rfl)
  unfold illustratedBesideDeleted
  exact (((((hlogins.tail (.note _)).tail (.attachment _)).tail (.note _)).tail (.note _)).tail
    (.note _)).tail (.note _)

/-- The deleted note is purged with its grant and its links, and the illustrated note is kept. -/
theorem purge_deleted_before_complete_iff_illustrated :
    illustratedBesideDeleted.Expired 400 ⟨8⟩ ∧ ¬illustratedBesideDeleted.Expired 400 ⟨7⟩ ∧
      ⟨⟨7⟩, 2, ⟨9⟩⟩ ∈ illustratedBesideDeleted.noteRevisionAttachments ∧
      illustratedBesideDeleted.noteAcl.rows.length = 1 ∧
      illustratedBesideDeleted.PurgesExactly 400 :=
  ⟨⟨_, rfl, 300, rfl, by decide⟩, by decide, by decide, by decide,
    (Database.purge_deleted_before_complete_iff reachable_illustratedBesideDeleted 400).mpr
      (by decide)⟩

end Marginalis
