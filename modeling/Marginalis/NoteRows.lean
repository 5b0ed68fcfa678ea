import Marginalis.Principals
import Marginalis.Statements

/-!
# Rows that are notes

The view `note_details` and the decoder `noteFromRow` turn a row into a note. These lemmas
take a successful read apart (`readNote_eq_ok`, `noteFromRow_eq_ok`), and say what it depends
on : the row and the identities it names, which later logins leave alone (`readNote_mono`).
Every owner of a note is a known principal (`OwnersKnown`), so the view has every row.
-/

namespace Marginalis

open Database

variable {details : NoteDetails} {note : Note}

/-- The columns a decoded note was read from. -/
theorem noteFromRow_eq_ok : noteFromRow details = .ok note ↔
    details.reviewTracking = .ok note.review ∧ note.noteId = details.row.noteId ∧
      note.owner = ⟨details.row.creator, details.creatorIdentity⟩ ∧
      note.draft = ⟨details.row.title, details.row.source, details.row.tags⟩ ∧
      note.createdAt = details.row.createdAt ∧ note.updatedAt = details.row.updatedAt ∧
      note.revision = details.row.revision ∧ note.deletedAt = details.row.deletedAt ∧
      note.createdVia = details.row.createdVia := by
  unfold noteFromRow
  rw [Except.bind_eq_ok]
  constructor
  · rintro ⟨review, hreview, h⟩
    dsimp only at h
    split at h
    · next restored hrestore =>
      cases h
      have heq := Note.restore_eq_some.mp hrestore
      rw [heq]
      exact ⟨hreview, rfl, rfl, rfl, rfl, rfl, rfl, rfl, rfl⟩
    · cases h
  · rintro ⟨hreview, hid, howner, hdraft, hcreated, hupdated, hrevision, hdeleted, hvia⟩
    refine ⟨note.review, hreview, ?_⟩
    dsimp only
    rw [← hid, ← howner, ← hdraft, ← hcreated, ← hupdated, ← hrevision, ← hdeleted, ← hvia]
    have hrestore := Note.restore_toNoteRestore note
    simp only [hrestore]

theorem noteId_of_noteFromRow (h : noteFromRow details = .ok note) :
    note.noteId = details.row.noteId :=
  (noteFromRow_eq_ok.mp h).2.1

namespace Database

variable {db db' : Database} {n : NoteId}

theorem readNote_eq_ok {note : Note} : db.readNote n = .ok note ↔ ∃ row details,
    db.notes.find n = some row ∧ db.noteDetails row = some details ∧
      noteFromRow details = .ok note := by
  unfold readNote
  cases db.notes.find n with
  | none => simp
  | some row =>
    cases hdetails : db.noteDetails row with
    | none => simp [hdetails]
    | some details => simp [hdetails]

theorem row_of_noteDetails {row : NoteRow} {details : NoteDetails}
    (h : db.noteDetails row = some details) : details.row = row := by
  obtain ⟨identity, -, rfl⟩ := Option.map_eq_some_iff.mp h
  rfl

/-- What the read of a note shows does not depend on identities that come later. -/
theorem readNote_mono {note : Note} (hfind : db'.notes.find n = db.notes.find n)
    (hidentity : ∀ q identity, db.primaryIdentity q = some identity →
      db'.primaryIdentity q = some identity)
    (h : db.readNote n = .ok note) : db'.readNote n = .ok note := by
  obtain ⟨row, details, hrow, hdetails, hnote⟩ := readNote_eq_ok.mp h
  refine readNote_eq_ok.mpr ⟨row, details, hfind.trans hrow, ?_, hnote⟩
  obtain ⟨identity, hcreator, rfl⟩ := Option.map_eq_some_iff.mp hdetails
  have hreviewer : (row.review.bind fun review => db'.primaryIdentity review.reviewer) =
      row.review.bind fun review => db.primaryIdentity review.reviewer := by
    cases hreview : row.review with
    | none => rfl
    | some review =>
      simp only [Option.bind_some]
      cases hr : db.primaryIdentity review.reviewer with
      | some reviewer => exact hidentity _ _ hr
      | none =>
        -- The row would not be a note : a review without its reviewer is corrupt.
        unfold noteFromRow at hnote
        rw [Except.bind_eq_ok] at hnote
        obtain ⟨tracking, htracking, -⟩ := hnote
        simp only [NoteDetails.reviewTracking, hreview, hr, Option.bind_some] at htracking
        cases hknown : row.reviewTrackingKnown <;> simp [hknown] at htracking
  simp only [noteDetails, hidentity _ _ hcreator, hreviewer, Option.map_some]

/-! ## Known owners -/

/-- Every owner of a note has a primary identity. -/
structure OwnersKnown (db : Database) : Prop where
  principals : db.PrincipalsConsistent
  owner : ∀ row ∈ db.notes, ∃ r, db.principals.find row.creator = some r

theorem ownersKnown_empty : empty.OwnersKnown := ⟨principalsConsistent_empty, by simp [empty]⟩

end Database

variable {db db' : Database}

/-- No statement writes principals. -/
theorem Statement.principals (h : Statement db db') : db'.principals = db.principals ∧
    db'.principalIdentities = db.principalIdentities := by
  cases h with
  | insertNote hactive h =>
    obtain ⟨notes, -, -, -, rfl⟩ := insertNoteRow_eq_ok.mp h
    exact ⟨rfl, rfl⟩
  | updateNote hold hcreator hactive h =>
    obtain ⟨-, rfl⟩ := updateNoteRow_eq_ok.mp h
    exact ⟨rfl, rfl⟩
  | deleteAcl row hrow =>
    have hsame := sameContent_deleteAclRow db row
    exact ⟨hsame.principals, hsame.principalIdentities⟩
  | insertAcl hactive h =>
    have hsame := sameContent_insertAclRow h
    exact ⟨hsame.principals, hsame.principalIdentities⟩
  | insertItem h =>
    obtain ⟨items, -, rfl⟩ := insertBibliographyItemRow_eq_ok h
    exact ⟨rfl, rfl⟩
  | updateItem hold h =>
    rcases updateBibliographyItemRow_eq_ok h with ⟨-, rfl⟩ | ⟨-, rfl⟩ <;> exact ⟨rfl, rfl⟩
  | deleteItem old hold => exact ⟨rfl, rfl⟩
  | content => exact ⟨rfl, rfl⟩

/-- The owner of a note after a statement owned one before, or is a stored principal. -/
theorem Statement.owner (h : Statement db db') {row : NoteRow} (hrow : row ∈ db'.notes) :
    (∃ old ∈ db.notes, old.creator = row.creator) ∨ (db.principals.find row.creator).isSome := by
  cases h with
  | insertNote hactive h =>
    obtain ⟨notes, -, hprincipal, hinsert, rfl⟩ := insertNoteRow_eq_ok.mp h
    rcases (Table.mem_insert? hinsert).mp hrow with hrow | rfl
    · exact Or.inl ⟨row, hrow, rfl⟩
    · exact Or.inr hprincipal
  | updateNote hold hcreator hactive h =>
    obtain ⟨-, rfl⟩ := updateNoteRow_eq_ok.mp h
    rcases Table.mem_upsert.mp hrow with rfl | ⟨hrow, -⟩
    · exact Or.inl ⟨_, Table.mem_of_find hold, hcreator.symm⟩
    · exact Or.inl ⟨row, hrow, rfl⟩
  | deleteAcl row' hrow' =>
    rw [(sameContent_deleteAclRow db row').notes] at hrow
    exact Or.inl ⟨row, hrow, rfl⟩
  | insertAcl hactive h =>
    rw [(sameContent_insertAclRow h).notes] at hrow
    exact Or.inl ⟨row, hrow, rfl⟩
  | insertItem h =>
    obtain ⟨items, -, rfl⟩ := insertBibliographyItemRow_eq_ok h
    exact Or.inl ⟨row, hrow, rfl⟩
  | updateItem hold h =>
    rcases updateBibliographyItemRow_eq_ok h with ⟨-, rfl⟩ | ⟨-, rfl⟩ <;>
      exact Or.inl ⟨row, hrow, rfl⟩
  | deleteItem old hold => exact Or.inl ⟨row, hrow, rfl⟩
  | content => exact Or.inl ⟨row, hrow, rfl⟩

theorem Statement.ownersKnown (hknown : db.OwnersKnown) (h : Statement db db') :
    db'.OwnersKnown := by
  obtain ⟨hprincipals, hidentities⟩ := h.principals
  constructor
  · constructor
    · unfold Database.primaryIdentity
      rw [hprincipals, hidentities]
      exact hknown.principals.primary
    · rw [hprincipals, hidentities]
      exact hknown.principals.principal
  · intro row hrow
    rw [hprincipals]
    rcases h.owner hrow with ⟨old, hold, hcreator⟩ | hsome
    · exact hcreator ▸ hknown.owner old hold
    · exact Option.isSome_iff_exists.mp hsome

theorem Statements.ownersKnown (hknown : db.OwnersKnown) (h : Statements db db') :
    db'.OwnersKnown := by
  induction h with
  | refl => exact hknown
  | tail _ hlast ih => exact hlast.ownersKnown ih

end Marginalis
