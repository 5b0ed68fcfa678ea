import Marginalis.IdentityMaintenance
import Marginalis.LibraryInvariant
import Marginalis.MathMacroStore
import Marginalis.NoteHistory
import Mathlib.Algebra.Order.BigOperators.Group.List

/-!
# What holds of the whole database

The transactions of the service and of its maintenance commands write notes with their history,
images and grants, principals and their identities, the library with its imports, and mathematical
macros. Each of them leaves the tables of the others alone, so the invariants of the parts hold
side by side (`ServiceSound`). They say of every stored row that it decodes, and of every column
that names another row that this row is there.
-/

namespace Marginalis

namespace Database

variable {db db' db'' : Database}

/-! ## What a transaction leaves alone -/

/-- The tables of notes and of principals are the same. -/
structure SameNoteTables (db db' : Database) : Prop where
  principals : db'.principals = db.principals
  principalIdentities : db'.principalIdentities = db.principalIdentities
  notes : db'.notes = db.notes
  noteRevisions : db'.noteRevisions = db.noteRevisions
  noteAttachments : db'.noteAttachments = db.noteAttachments
  noteRevisionAttachments : db'.noteRevisionAttachments = db.noteRevisionAttachments
  noteAcl : db'.noteAcl = db.noteAcl

/-- The tables of principals, of the library and of the macros are the same. -/
structure SameUserTables (db db' : Database) : Prop where
  principals : db'.principals = db.principals
  principalIdentities : db'.principalIdentities = db.principalIdentities
  items : db'.bibliographyItems = db.bibliographyItems
  sources : db'.bibliographyImportSources = db.bibliographyImportSources
  links : db'.bibliographyImportLinks = db.bibliographyImportLinks
  macros : db'.mathMacroSettings = db.mathMacroSettings

theorem SameNoteTables.refl (db : Database) : db.SameNoteTables db :=
  ⟨rfl, rfl, rfl, rfl, rfl, rfl, rfl⟩

theorem SameNoteTables.trans (h : db.SameNoteTables db') (h' : db'.SameNoteTables db'') :
    db.SameNoteTables db'' :=
  ⟨h'.1.trans h.1, h'.2.trans h.2, h'.3.trans h.3, h'.4.trans h.4, h'.5.trans h.5, h'.6.trans h.6,
    h'.7.trans h.7⟩

theorem SameUserTables.refl (db : Database) : db.SameUserTables db :=
  ⟨rfl, rfl, rfl, rfl, rfl, rfl⟩

theorem SameUserTables.trans (h : db.SameUserTables db') (h' : db'.SameUserTables db'') :
    db.SameUserTables db'' :=
  ⟨h'.1.trans h.1, h'.2.trans h.2, h'.3.trans h.3, h'.4.trans h.4, h'.5.trans h.5, h'.6.trans h.6⟩

/-! ### Notes -/

theorem sameUserTables_recordAccessChange (db : Database) (kind : ChangeKind) (row : AclRow) :
    db.SameUserTables (db.recordAccessChange kind row) := by
  rcases recordAccessChange_cases db kind row with h | ⟨c, h⟩ <;> rw [h]
  · exact .refl db
  · exact ⟨rfl, rfl, rfl, rfl, rfl, rfl⟩

/-- A statement on notes and grants. -/
theorem sameUserTables_insertAclRow {row : AclRow} (h : db.insertAclRow row = .ok db') :
    db.SameUserTables db' := by
  obtain ⟨note, acl, -, -, -, -, rfl⟩ := insertAclRow_eq_ok.mp h
  refine SameUserTables.trans ?_ (sameUserTables_recordAccessChange _ _ _)
  exact ⟨rfl, rfl, rfl, rfl, rfl, rfl⟩

theorem sameUserTables_deleteAclRows (rows : List AclRow) (db : Database) :
    db.SameUserTables (rows.foldl deleteAclRow db) := by
  induction rows generalizing db with
  | nil => exact .refl db
  | cons row rows ih =>
    refine SameUserTables.trans (SameUserTables.trans ?_ (sameUserTables_recordAccessChange _ _ _))
      (ih (db.deleteAclRow row))
    exact ⟨rfl, rfl, rfl, rfl, rfl, rfl⟩

theorem sameUserTables_command {c : NoteCommand} (h : c.exec db = .ok db') :
    db.SameUserTables db' := by
  obtain ⟨written, shared, references, citations, revisions, attachments, hw, hs, rfl⟩ :=
    NoteCommand.exec_eq h
  obtain ⟨notes, change, rfl⟩ := hw.eq
  have hshared : db.SameUserTables shared := by
    have hwritten : db.SameUserTables (recordChange { db with notes := notes } change) :=
      ⟨rfl, rfl, rfl, rfl, rfl, rfl⟩
    refine hwritten.trans ?_
    unfold NoteCommand.Shares at hs
    cases hentries : c.entries with
    | none =>
      rw [hentries] at hs
      exact hs ▸ .refl _
    | some entries =>
      rw [hentries] at hs
      exact Except.foldlM_invariant (P := SameUserTables _) hs (sameUserTables_deleteAclRows _ _)
        fun _ _ _ _ hs hstep => hs.trans (sameUserTables_insertAclRow hstep)
  exact hshared.trans ⟨rfl, rfl, rfl, rfl, rfl, rfl⟩

theorem sameUserTables_deleteNoteRow {row : NoteRow} (h : db.deleteNoteRow row = .ok db') :
    db.SameUserTables db' := by
  obtain ⟨unused, hunused, h⟩ := Except.bind_eq_ok.mp h
  cases h
  set gone : Database := { db with notes := db.notes.deleteWhere fun r => r.noteId = row.noteId }
  have hgone : db.SameUserTables gone := ⟨rfl, rfl, rfl, rfl, rfl, rfl⟩
  have hshared := hgone.trans
    (sameUserTables_deleteAclRows (gone.noteAcl.select fun r => r.noteId = row.noteId) gone)
  have hdeleted := Except.foldlM_invariant (P := db.SameUserTables) hunused
    (hshared.trans ⟨rfl, rfl, rfl, rfl, rfl, rfl⟩) fun s r t _ hs hstep => by
      unfold deleteAttachmentRow at hstep
      split_ifs at hstep
      cases hstep
      exact hs.trans ⟨rfl, rfl, rfl, rfl, rfl, rfl⟩
  exact hdeleted.trans ⟨rfl, rfl, rfl, rfl, rfl, rfl⟩

/-- A transaction on notes leaves principals, libraries and macros alone. -/
theorem sameUserTables_store {lib : AttachmentLibrary} {op : StoreOperation lib}
    (hlogin : ∀ identity, op ≠ .login identity) (hop : ∀ tables, op ≠ .elsewhere tables)
    (db : Database) : db.SameUserTables (op.apply db) := by
  cases op with
  | login identity => exact absurd rfl (hlogin identity)
  | command c =>
    show db.SameUserTables (db.commit (c.exec db))
    cases hexec : c.exec db with
    | error e => exact .refl db
    | ok written => exact sameUserTables_command hexec
  | attachment c =>
    show db.SameUserTables (db.commit (c.exec db))
    cases hexec : c.exec db with
    | error e => exact .refl db
    | ok written =>
      rcases AttachmentCommand.exec_cases hexec with ⟨-, -, rows, -, -, -, -, -, -, rfl⟩ |
        ⟨-, -, -, rfl⟩ <;> exact ⟨rfl, rfl, rfl, rfl, rfl, rfl⟩
  | purgeAttachments cutoff => exact ⟨rfl, rfl, rfl, rfl, rfl, rfl⟩
  | purgeNotes cutoff =>
    show db.SameUserTables (db.commit ((db.purgeDeletedBefore cutoff).map Prod.snd))
    cases hpurge : db.purgeDeletedBefore cutoff with
    | error e => exact .refl db
    | ok purged =>
      obtain ⟨deleted, hdeleted, heq⟩ := Except.bind_eq_ok.mp hpurge
      cases heq
      exact Except.foldlM_invariant (P := db.SameUserTables) hdeleted (.refl db)
        fun s r t _ hs hstep => hs.trans (sameUserTables_deleteNoteRow hstep)
  | elsewhere tables => exact absurd rfl (hop tables)

/-! ### Libraries -/

/-- The tables of notes are the same, and so are the macros. -/
def SameButLibrary (db db' : Database) : Prop :=
  db.SameNoteTables db' ∧ db'.mathMacroSettings = db.mathMacroSettings

theorem SameButLibrary.refl (db : Database) : db.SameButLibrary db := ⟨.refl db, rfl⟩

theorem SameButLibrary.trans (h : db.SameButLibrary db') (h' : db'.SameButLibrary db'') :
    db.SameButLibrary db'' :=
  ⟨h.1.trans h'.1, h'.2.trans h.2⟩

theorem SameButLibrary.of_eq (hprincipals : db'.principals = db.principals)
    (hidentities : db'.principalIdentities = db.principalIdentities)
    (hnotes : db'.notes = db.notes) (hrevisions : db'.noteRevisions = db.noteRevisions)
    (hattachments : db'.noteAttachments = db.noteAttachments)
    (hshown : db'.noteRevisionAttachments = db.noteRevisionAttachments)
    (hacl : db'.noteAcl = db.noteAcl) (hmacros : db'.mathMacroSettings = db.mathMacroSettings) :
    db.SameButLibrary db' :=
  ⟨⟨hprincipals, hidentities, hnotes, hrevisions, hattachments, hshown, hacl⟩, hmacros⟩

theorem SameButLibrary.statement (h : LibraryStatement db db') : db.SameButLibrary db' := by
  cases h with
  | insertItem h =>
    obtain ⟨items, -, rfl⟩ := insertBibliographyItemRow_eq_ok h
    exact .of_eq rfl rfl rfl rfl rfl rfl rfl rfl
  | updateItem hold h =>
    rcases updateBibliographyItemRow_eq_ok h with ⟨-, rfl⟩ | ⟨-, rfl⟩ <;>
      exact .of_eq rfl rfl rfl rfl rfl rfl rfl rfl
  | deleteItem old hold => exact .of_eq rfl rfl rfl rfl rfl rfl rfl rfl
  | imports sources links => exact .of_eq rfl rfl rfl rfl rfl rfl rfl rfl

variable {lib : ImportLibrary}

/-- A transaction on libraries leaves notes, principals and macros alone. -/
theorem sameButLibrary_step {t : TimedOperation} (hlibrary : t.OfLibrary)
    (h : t.Step lib db db') : db.SameButLibrary db' := by
  have hstatements := h.libraryStatements hlibrary
  clear h
  induction hstatements with
  | refl => exact .refl db
  | tail _ hlast ih => exact ih.trans (.statement hlast)

/-! ## Principals -/

/-- The identity that is shown for a principal is its primary one. -/
theorem BindingsWhole.primaryIdentity_eq_some (hdb : db.BindingsWhole) {q : PrincipalId}
    {identity : Identity} : db.primaryIdentity q = some identity ↔
      ∃ row ∈ db.principalIdentities, row.principalId = q ∧ row.isPrimary = true ∧
        row.identity = identity := by
  unfold primaryIdentity
  rw [Option.map_eq_some_iff]
  constructor
  · rintro ⟨row, hrow, hidentity⟩
    have hmatch := List.find?_some hrow
    rw [decide_eq_true_eq] at hmatch
    exact ⟨row, List.mem_of_find?_eq_some hrow, hmatch.1, hmatch.2, hidentity⟩
  · rintro ⟨row, hrow, hid, hprimary, hidentity⟩
    cases hfind : db.principalIdentities.rows.find? fun row =>
        decide (row.principalId = q ∧ row.isPrimary = true) with
    | none => simpa [hid, hprimary] using List.find?_eq_none.mp hfind row hrow
    | some found =>
      have hmatch := List.find?_some hfind
      rw [decide_eq_true_eq] at hmatch
      have hsame := hdb.primary_unique found (List.mem_of_find?_eq_some hfind) row hrow
        (hmatch.1.trans hid.symm) hmatch.2 hprimary
      exact ⟨found, rfl, hsame ▸ hidentity⟩

theorem BindingsWhole.exists_primaryIdentity (hdb : db.BindingsWhole) {q : PrincipalId}
    (hknown : db.Known q) : ∃ identity, db.primaryIdentity q = some identity := by
  obtain ⟨p, hp⟩ := hknown
  obtain ⟨row, hrow, hid, hprimary⟩ := hdb.primary p (Table.mem_of_find hp)
  exact ⟨row.identity, hdb.primaryIdentity_eq_some.mpr
    ⟨row, hrow, hid.trans (Table.key_of_find hp), hprimary, rfl⟩⟩

theorem BindingsWhole.consistent (hdb : db.BindingsWhole) : db.PrincipalsConsistent where
  primary p hp := hdb.exists_primaryIdentity ⟨p, Table.find_of_mem hp⟩
  principal row hrow := Option.isSome_iff_exists.mp (hdb.owner row hrow)

/-- A principal of an identity is known. -/
theorem BindingsWhole.known (hdb : db.BindingsWhole) {q : PrincipalId} {identity : Identity}
    (h : db.primaryIdentity q = some identity) : db.Known q := by
  obtain ⟨row, hrow, rfl, -⟩ := hdb.primaryIdentity_eq_some.mp h
  exact Option.isSome_iff_exists.mp (hdb.owner row hrow)

variable {μ : Type*}

/-- Only the table of the identities is written, and every identity still has a principal. -/
def BindsIdentities (db db' : Database) : Prop :=
  (∃ identities, db' = { db with principalIdentities := identities }) ∧
    ((∀ row ∈ db.principalIdentities, db.Known row.principalId) →
      ∀ row ∈ db'.principalIdentities, db.Known row.principalId)

theorem BindsIdentities.trans {db'' : Database} (h : db.BindsIdentities db')
    (h' : db'.BindsIdentities db'') : db.BindsIdentities db'' := by
  obtain ⟨⟨identities, rfl⟩, hknown⟩ := h
  obtain ⟨⟨identities', rfl⟩, hknown'⟩ := h'
  exact ⟨⟨identities', rfl⟩, fun hrows => hknown' (hknown hrows)⟩

theorem insertIdentity_binds {principalId : PrincipalId} {identity : Identity} {isPrimary : Bool}
    (h : db.insertIdentity principalId identity isPrimary = some db') :
    db.BindsIdentities db' := by
  obtain ⟨⟨hprincipal, -⟩, -, hrows⟩ := insertIdentity_eq_some h
  unfold insertIdentity at h
  split_ifs at h
  obtain ⟨identities, -, rfl⟩ := Option.map_eq_some_iff.mp h
  refine ⟨⟨identities, rfl⟩, fun hknown row hrow => ?_⟩
  rcases (hrows row).mp hrow with hold | rfl
  · exact hknown row hold
  · exact Option.isSome_iff_exists.mp hprincipal

theorem setPrimary_binds {principalId : PrincipalId} {identity : Identity}
    (h : db.setPrimary (μ := μ) principalId identity = .ok db') : db.BindsIdentities db' := by
  obtain ⟨-, -, hrows⟩ := setPrimary_eq_ok h
  unfold setPrimary markPrimary clearPrimary at h
  dsimp only at h
  split_ifs at h
  cases h
  refine ⟨⟨_, rfl⟩, fun hknown row hrow => ?_⟩
  obtain ⟨old, hold, heq⟩ := (hrows row).mp hrow
  have hid : row.principalId = old.principalId := by
    rw [heq]
    split_ifs <;> rfl
  exact hid ▸ hknown old hold

theorem writeMaintenance_binds {principalId : PrincipalId} {request : IdentityMaintenanceRequest}
    (h : db.writeMaintenance (μ := μ) principalId request = .ok db') : db.BindsIdentities db' := by
  unfold writeMaintenance at h
  split at h
  · split at h
    · cases h
    · next linked hlinked =>
      split_ifs at h
      · exact (insertIdentity_binds hlinked).trans (setPrimary_binds h)
      · cases h
        exact insertIdentity_binds hlinked
  · exact setPrimary_binds h

theorem primaryIdentity_of_verify (h : db.verifyPrincipalBindings = true) {p : PrincipalRow}
    (hp : p ∈ db.principals) : ∃ identity, db.primaryIdentity p.principalId = some identity := by
  simp only [verifyPrincipalBindings, decide_eq_true_eq] at h
  obtain ⟨-, hone⟩ := h p hp
  obtain ⟨row, hrow⟩ := List.exists_mem_of_length_pos (Nat.lt_of_lt_of_eq Nat.one_pos hone.symm)
  obtain ⟨hmem, hmatch⟩ := Table.mem_select.mp hrow
  have hfound : (db.principalIdentities.rows.find? fun row =>
      decide (row.principalId = p.principalId ∧ row.isPrimary = true)).isSome :=
    List.find?_isSome.mpr ⟨row, hmem, hmatch⟩
  obtain ⟨found, hfound⟩ := Option.isSome_iff_exists.mp hfound
  exact ⟨found.identity, Option.map_eq_some_iff.mpr ⟨found, hfound, rfl⟩⟩

/-! ## Notes and their histories -/

/-- Every note is sound and has a complete history, a restored one perhaps. -/
structure NotesComplete (db : Database) : Prop where
  notes : db.NotesSound
  history : db.HistoryComplete True

theorem notesComplete_empty : empty.NotesComplete := ⟨notesSound_empty, historyComplete_empty⟩

/-- Notes depend on their own tables, and on principals only in that their own are there. -/
theorem NotesComplete.of_eq (h : db.NotesComplete) (hprincipals : db'.PrincipalsConsistent)
    (hknown : ∀ q, db.Known q → db'.Known q) (hnotes : db'.notes = db.notes)
    (hrevisions : db'.noteRevisions = db.noteRevisions)
    (hattachments : db'.noteAttachments = db.noteAttachments)
    (hshown : db'.noteRevisionAttachments = db.noteRevisionAttachments)
    (hacl : db'.noteAcl = db.noteAcl) : db'.NotesComplete where
  notes := by
    refine h.notes.mono ⟨hprincipals, fun row hrow => ?_⟩ hknown ?_ ?_ ?_
    · exact hknown _ (h.notes.known.owner row (hnotes ▸ hrow))
    · exact hacl ▸ fun _ hrow => hrow
    · exact hnotes ▸ fun _ hrow => hrow
    · rw [hnotes, hrevisions]
      exact fun _ hr => ⟨hr, fun _ hnote _ => hnote⟩
  history := by
    refine h.history.congr hnotes hrevisions hshown ?_
    unfold ForeignKeys
    rw [hshown, hattachments]
    exact h.history.stored

theorem NotesComplete.same (h : db.NotesComplete) (hsame : db.SameNoteTables db') :
    db'.NotesComplete := by
  refine h.of_eq (h.notes.known.principals.congr hsame.principals hsame.principalIdentities)
    (fun q hq => ?_) hsame.notes hsame.noteRevisions hsame.noteAttachments
    hsame.noteRevisionAttachments hsame.noteAcl
  unfold Known
  rwa [hsame.principals]

/-- The maintenance commits nothing that its last check does not find in order. -/
theorem NotesComplete.maintainIdentity (h : db.NotesComplete)
    (environment : MaintenanceEnvironment μ) (request : IdentityMaintenanceRequest) :
    (db.maintainIdentity environment request).2.NotesComplete := by
  rcases maintainIdentity_cases environment request db with
    ⟨-, error, heq⟩ | ⟨committed, ⟨principalId, report, -, hcommit⟩, heq, -⟩
  · rw [heq]
    exact h
  · rw [heq]
    obtain ⟨hwrite, hverify⟩ := commitMaintenance_eq_ok hcommit
    obtain ⟨⟨identities, rfl⟩, hknown⟩ := writeMaintenance_binds hwrite
    have hconsistent :
        ({ db with principalIdentities := identities } : Database).PrincipalsConsistent :=
      ⟨fun p hp => primaryIdentity_of_verify hverify hp,
        hknown h.notes.known.principals.principal⟩
    exact h.of_eq hconsistent (fun _ hq => hq) rfl rfl rfl rfl rfl

/-! ## Grants -/

/-- A grant is of a stored note, and to another principal than its owner. -/
def GrantsSound (db : Database) : Prop :=
  ∀ row ∈ db.noteAcl, ∃ note, db.notes.find row.noteId = some note ∧ note.creator ≠ row.principalId

theorem grantsSound_empty : empty.GrantsSound := fun _ h => absurd h Table.not_mem_empty

theorem GrantsSound.of_eq (h : db.GrantsSound) (hnotes : db'.notes = db.notes)
    (hacl : ∀ row ∈ db'.noteAcl, row ∈ db.noteAcl) : db'.GrantsSound := by
  intro row hrow
  rw [hnotes]
  exact h row (hacl row hrow)

theorem GrantsSound.statement (h : db.GrantsSound) (hstatement : Statement db db') :
    db'.GrantsSound := by
  cases hstatement with
  | @insertNote new _ hactive hinsert =>
    obtain ⟨notes, -, -, hnotes, rfl⟩ := insertNoteRow_eq_ok.mp hinsert
    intro row hrow
    obtain ⟨note, hnote, hcreator⟩ := h row hrow
    refine ⟨note, ?_, hcreator⟩
    rw [recordChange_notes, Table.find_insert? hnotes, if_neg]
    · exact hnote
    · intro hkey
      rw [← hkey, (Table.insert?_eq_some.mp hnotes).1] at hnote
      cases hnote
  | @updateNote old new _ hold hcreator hactive hupdate =>
    obtain ⟨-, rfl⟩ := updateNoteRow_eq_ok.mp hupdate
    intro row hrow
    obtain ⟨note, hnote, hne⟩ := h row hrow
    rw [recordChange_notes, Table.find_upsert]
    by_cases hkey : Keyed.key new = row.noteId
    · have hkey' : new.noteId = row.noteId := hkey
      rw [← hkey', hold, Option.some.injEq] at hnote
      exact ⟨new, if_pos hkey, by rwa [hcreator, hnote]⟩
    · exact ⟨note, by rw [if_neg hkey, hnote], hne⟩
  | deleteAcl row hrow =>
    refine h.of_eq (sameContent_deleteAclRow db row).notes fun other hother => ?_
    rw [noteAcl_deleteAclRow] at hother
    exact (Table.mem_deleteWhere.mp hother).1
  | @insertAcl row _ hactive hinsert =>
    obtain ⟨note, acl, hnote, hcreator, -, hacl, rfl⟩ := insertAclRow_eq_ok.mp hinsert
    intro other hother
    rw [noteAcl_recordAccessChange] at hother
    rw [(sameContent_recordAccessChange _ _ _).notes]
    rcases (Table.mem_insert? hacl).mp hother with hother | rfl
    · exact h other hother
    · exact ⟨note, hnote, hcreator⟩
  | insertItem hinsert =>
    obtain ⟨items, -, rfl⟩ := insertBibliographyItemRow_eq_ok hinsert
    exact h
  | updateItem hold hupdate =>
    rcases updateBibliographyItemRow_eq_ok hupdate with ⟨-, rfl⟩ | ⟨-, rfl⟩ <;> exact h
  | deleteItem old hold => exact h
  | content => exact h

theorem GrantsSound.command (h : db.GrantsSound) {c : NoteCommand}
    (hexec : c.exec db = .ok db') : db'.GrantsSound := by
  have hstatements := NoteCommand.exec_statements hexec
  clear hexec
  induction hstatements with
  | refl => exact h
  | tail _ hstatement ih => exact ih.statement hstatement

theorem GrantsSound.withoutNotes (h : db.GrantsSound) {ns : List NoteId}
    (hwithout : db.WithoutNotes db' ns) : db'.GrantsSound := by
  intro row hrow
  obtain ⟨hrow, hkept⟩ := (hwithout.noteAcl row).mp hrow
  obtain ⟨note, hnote, hcreator⟩ := h row hrow
  have hid : note.noteId = row.noteId := Table.key_of_find hnote
  have hmem := (hwithout.notes note).mpr ⟨Table.mem_of_find hnote, hid ▸ hkept⟩
  exact ⟨note, hid ▸ Table.find_of_mem hmem, hcreator⟩

/-! ## Images -/

section Images

variable {lib : AttachmentLibrary}

/-- The images of a note are within the limits. -/
def WithinLimits (rows : List AttachmentRow) : Prop :=
  rows.length ≤ attachmentPolicy.maxAttachmentsPerNote ∧
    (rows.map AttachmentRow.byteLength).sum ≤ attachmentPolicy.maxBytesPerNote

theorem WithinLimits.sublist {rows rows' : List AttachmentRow} (h : WithinLimits rows)
    (hsub : rows'.Sublist rows) : WithinLimits rows' :=
  ⟨hsub.length_le.trans h.1, ((hsub.map _).sum_le_sum fun _ _ => Nat.zero_le _).trans h.2⟩

theorem WithinLimits.perm {rows rows' : List AttachmentRow} (h : WithinLimits rows)
    (hperm : rows'.Perm rows) : WithinLimits rows' := by
  unfold WithinLimits
  rw [hperm.length_eq, (hperm.map _).sum_eq]
  exact h

/-- Every image is a checked one of a stored note, by a known principal, and no note has more than
its limits. -/
structure ImagesSound (lib : AttachmentLibrary) (db : Database) : Prop where
  stored : ∀ row ∈ db.noteAttachments, ∃ attachment : StoredAttachment lib, attachment.toRow = row
  note : ∀ row ∈ db.noteAttachments, ∃ note ∈ db.notes, note.noteId = row.noteId
  creator : ∀ row ∈ db.noteAttachments, db.Known row.createdBy
  limits : ∀ n, WithinLimits (db.attachmentsOf n)

theorem imagesSound_empty : empty.ImagesSound lib := by
  refine ⟨?_, ?_, ?_, fun n => ⟨Nat.zero_le _, Nat.zero_le _⟩⟩ <;>
    exact fun _ h => absurd h Table.not_mem_empty

theorem ImagesSound.of_eq (h : db.ImagesSound lib)
    (hattachments : db'.noteAttachments = db.noteAttachments)
    (hnotes : ∀ note ∈ db.notes, ∃ note' ∈ db'.notes, note'.noteId = note.noteId)
    (hknown : ∀ q, db.Known q → db'.Known q) : db'.ImagesSound lib where
  stored := by
    rw [hattachments]
    exact h.stored
  note row hrow := by
    obtain ⟨note, hnote, hid⟩ := h.note row (hattachments ▸ hrow)
    obtain ⟨note', hnote', hid'⟩ := hnotes note hnote
    exact ⟨note', hnote', hid'.trans hid⟩
  creator row hrow := hknown _ (h.creator row (hattachments ▸ hrow))
  limits n := by
    unfold attachmentsOf
    rw [hattachments]
    exact h.limits n

theorem ImagesSound.delete (h : db.ImagesSound lib) (p : AttachmentRow → Bool) :
    ({ db with noteAttachments := db.noteAttachments.deleteWhere p } : Database).ImagesSound
      lib where
  stored row hrow := h.stored row (Table.mem_deleteWhere.mp hrow).1
  note row hrow := h.note row (Table.mem_deleteWhere.mp hrow).1
  creator row hrow := h.creator row (Table.mem_deleteWhere.mp hrow).1
  limits n := (h.limits n).sublist (List.filter_sublist.filter _)

/-- Whoever can access a note is known. -/
theorem NotesSound.known_of_access (h : db.NotesSound) {q : PrincipalId} {n : NoteId} {level : ℕ}
    (haccess : db.HasAccess q n level) : db.Known q := by
  obtain ⟨access, hmem, -, rfl, -⟩ := haccess
  rcases mem_noteAccess.mp hmem with ⟨row, hrow, rfl⟩ | ⟨grant, hgrant, rfl⟩
  · exact h.known.owner row hrow
  · exact h.grantees grant hgrant

theorem ImagesSound.attachmentCommand (h : db.ImagesSound lib) (hsound : db.NotesSound)
    {c : AttachmentCommand lib} (hexec : c.exec db = .ok db') : db'.ImagesSound lib := by
  rcases AttachmentCommand.exec_cases hexec with
    ⟨actor, attachment, rows, -, ⟨⟨note, hnote, hid, -⟩, haccess⟩, hcreator, hcount, hbytes,
      hinsert, rfl⟩ | ⟨noteId, attachmentId, -, rfl⟩
  · have hmem : ∀ row, row ∈ rows ↔ row ∈ db.noteAttachments ∨ row = attachment.toRow :=
      fun row => Table.mem_insert? hinsert
    refine ⟨fun row hrow => ?_, fun row hrow => ?_, fun row hrow => ?_, fun n => ?_⟩
    · rcases (hmem row).mp hrow with hrow | rfl
      · exact h.stored row hrow
      · exact ⟨attachment, rfl⟩
    · rcases (hmem row).mp hrow with hrow | rfl
      · exact h.note row hrow
      · exact ⟨note, hnote, hid⟩
    · rcases (hmem row).mp hrow with hrow | rfl
      · exact h.creator row hrow
      · show db.Known attachment.metadata.createdBy.id
        rw [hcreator]
        exact hsound.known_of_access haccess
    · show WithinLimits (rows.select fun row => row.noteId = n)
      unfold Table.select
      rw [(Table.insert?_eq_some.mp hinsert).2, List.filter_append]
      by_cases hn : attachment.metadata.noteId = n
      · subst hn
        rw [List.filter_cons_of_pos (by simp [StoredAttachment.toRow]), List.filter_nil]
        refine ⟨?_, ?_⟩
        · rw [List.length_append, List.length_singleton]
          exact hcount
        · rw [List.map_append, List.sum_append, List.map_singleton, List.sum_singleton]
          exact hbytes
      · rw [List.filter_cons_of_neg (by simp [StoredAttachment.toRow, hn]), List.filter_nil,
          List.append_nil]
        exact h.limits n
  · exact h.delete _

theorem ImagesSound.withoutNotes (h : db.ImagesSound lib) {ns : List NoteId}
    (hwithout : db.WithoutNotes db' ns) (hknown : ∀ q, db.Known q → db'.Known q) :
    db'.ImagesSound lib where
  stored row hrow := h.stored row ((hwithout.noteAttachments row).mp hrow).1
  note row hrow := by
    obtain ⟨hrow, hkept⟩ := (hwithout.noteAttachments row).mp hrow
    obtain ⟨note, hnote, hid⟩ := h.note row hrow
    exact ⟨note, (hwithout.notes note).mpr ⟨hnote, hid ▸ hkept⟩, hid⟩
  creator row hrow := hknown _ (h.creator row ((hwithout.noteAttachments row).mp hrow).1)
  limits n := by
    by_cases hn : n ∈ ns
    · have hnone : db'.attachmentsOf n = [] := by
        refine List.filter_eq_nil_iff.mpr fun row hrow hid => ?_
        rw [decide_eq_true_eq] at hid
        exact ((hwithout.noteAttachments row).mp hrow).2 (hid ▸ hn)
      rw [hnone]
      exact ⟨Nat.zero_le _, Nat.zero_le _⟩
    · refine (h.limits n).perm (Table.select_perm fun row => ?_)
      rw [hwithout.noteAttachments, decide_eq_true_eq]
      constructor
      · rintro ⟨⟨hrow, -⟩, hid⟩
        exact ⟨hrow, hid⟩
      · rintro ⟨hrow, rfl⟩
        exact ⟨⟨hrow, hn⟩, rfl⟩

end Images

/-! ## Imports and macros -/

/-- Every import source restores and has a known owner, and every link names an external item. -/
structure ImportsSound (db : Database) : Prop where
  check : ∀ row ∈ db.bibliographyImportSources, sourceCheck row ∧ ValidSourceName row.displayName
  owner : ∀ row ∈ db.bibliographyImportSources, db.Known row.owner
  identifier : ∀ link ∈ db.bibliographyImportLinks,
    ValidIdentifier link.externalItemId maxBibliographyExternalItemIdBytes

theorem importsSound_empty : empty.ImportsSound := by
  refine ⟨?_, ?_, ?_⟩ <;> exact fun _ h => absurd h Table.not_mem_empty

theorem ImportsSound.of_eq (h : db.ImportsSound)
    (hsources : db'.bibliographyImportSources = db.bibliographyImportSources)
    (hlinks : ∀ link ∈ db'.bibliographyImportLinks, link ∈ db.bibliographyImportLinks)
    (hknown : ∀ q, db.Known q → db'.Known q) : db'.ImportsSound where
  check := by
    rw [hsources]
    exact h.check
  owner row hrow := hknown _ (h.owner row (hsources ▸ hrow))
  identifier link hlink := h.identifier link (hlinks link hlink)

theorem SameButLibrary.known (h : db.SameButLibrary db') {q : PrincipalId} (hq : db.Known q) :
    db'.Known q := by
  unfold Known
  rwa [h.1.principals]

theorem ImportsSound.persistSource (h : db.ImportsSound) {actor : Actor}
    {commit : BibliographyImportCommit lib.json} {revision : ℕ}
    (hstored : db.persistSource actor commit = .ok (revision, db')) : db'.ImportsSound := by
  unfold Database.persistSource at hstored
  split at hstored
  · obtain ⟨-, -, row, hrow, -, -, hle, rfl⟩ := renewSource_eq_ok.mp hstored
    have hmem := Table.mem_of_find hrow
    refine ⟨fun source hsource => ?_, fun source hsource => ?_, h.identifier⟩
    · rcases Table.mem_upsert.mp hsource with rfl | ⟨hsource, -⟩
      · exact ⟨⟨Nat.succ_pos _, hle⟩, (h.check row hmem).2⟩
      · exact h.check source hsource
    · rcases Table.mem_upsert.mp hsource with rfl | ⟨hsource, -⟩
      · exact h.owner row hmem
      · exact h.owner source hsource
  · obtain ⟨hcheck, hprincipal, -, sources, hinsert, rfl⟩ := insertSource_eq_ok.mp hstored
    refine ⟨fun source hsource => ?_, fun source hsource => ?_, h.identifier⟩
    · rcases (Table.mem_insert? hinsert).mp hsource with hsource | rfl
      · exact h.check source hsource
      · exact ⟨hcheck, commit.source.name⟩
    · rcases (Table.mem_insert? hinsert).mp hsource with hsource | rfl
      · exact h.owner source hsource
      · exact Option.ne_none_iff_exists'.mp hprincipal

theorem ImportsSound.persistLink (h : db.ImportsSound) {actor : Actor}
    {link : BibliographyImportLink} (hstored : db.persistLink actor link = .ok db') :
    db'.ImportsSound := by
  obtain ⟨-, -, -, rfl⟩ := persistLink_eq_ok.mp hstored
  refine ⟨h.check, h.owner, fun row hrow => ?_⟩
  rcases Table.mem_upsert.mp hrow with rfl | ⟨hrow, -⟩
  · exact link.identifier
  · exact h.identifier row hrow

theorem ImportsSound.applyMutation (h : db.ImportsSound) {actor : Actor}
    {mutation : BibliographyImportItemMutation lib.json}
    (hstored : applyMutation actor db mutation = .ok db') : db'.ImportsSound := by
  obtain ⟨written, hwritten, hlink⟩ := Except.bind_eq_ok.mp hstored
  obtain ⟨-, hsame, -⟩ := writeImportedItem_eq_ok hwritten
  refine ImportsSound.persistLink (h.of_eq hsame.sources ?_ ?_) hlink
  · rw [hsame.links]
    exact fun _ hold => hold
  · unfold Known
    rw [hsame.principals]
    exact fun _ hq => hq

/-- An operation of the library keeps sources and links sound. -/
theorem ImportsSound.step (h : db.ImportsSound) {t : TimedOperation} (hlibrary : t.OfLibrary)
    (hstep : t.Step lib db db') : db'.ImportsSound := by
  have hknown : ∀ q, db.Known q → db'.Known q :=
    fun _ hq => (sameButLibrary_step hlibrary hstep).known hq
  cases hstep.libraryMove with
  | same hsame => exact h.of_eq hsame.sources (hsame.links ▸ fun _ hold => hold) hknown
  | insert actor csl itemId value hlabel hinsert =>
    obtain ⟨-, -, -, hsame, -⟩ := insertItem_eq_ok hinsert
    exact h.of_eq hsame.sources (hsame.links ▸ fun _ hold => hold) hknown
  | update actor csl itemId revision value hlabel hupdate =>
    obtain ⟨-, -, -, -, -, -, -, hsame, -⟩ := writeOwnedItem_eq_ok hupdate
    exact h.of_eq hsame.sources (hsame.links ▸ fun _ hold => hold) hknown
  | delete actor itemId revision old hlabel hold hdelete =>
    subst hdelete
    exact h.of_eq rfl (fun link hlink => (Table.mem_deleteWhere.mp hlink).1) hknown
  | «import» read actor input decisions previewToken sourceId itemIds commit result hlabel hplan
      happly =>
    obtain ⟨-, -, -, revision, stored, hstored, hmutations, -⟩ := applyImport_eq_ok.mp happly
    exact Except.foldlM_invariant hmutations (h.persistSource hstored)
      fun _ _ _ _ hs hmutation => hs.applyMutation hmutation

/-- Every item has a revision. -/
def ItemsPositive (db : Database) : Prop := ∀ row ∈ db.bibliographyItems, 0 < row.revision

theorem itemsPositive_empty : empty.ItemsPositive := fun _ h => absurd h Table.not_mem_empty

theorem ItemsPositive.replace (h : db.ItemsPositive) {new : BibliographyItemRow}
    (hnew : 0 < new.revision) (hitems : ∀ id, db'.bibliographyItems.find id =
      if new.itemId = id then some new else db.bibliographyItems.find id) : db'.ItemsPositive := by
  intro row hrow
  rcases (Table.mem_of_find_replaced hitems).mp hrow with rfl | ⟨hrow, -⟩
  · exact hnew
  · exact h row hrow

theorem ItemsPositive.applyMutation (h : db.ItemsPositive) {actor : Actor}
    {mutation : BibliographyImportItemMutation lib.json}
    (hstored : applyMutation actor db mutation = .ok db') : db'.ItemsPositive := by
  obtain ⟨written, hwritten, hlink⟩ := Except.bind_eq_ok.mp hstored
  obtain ⟨-, -, -, rfl⟩ := persistLink_eq_ok.mp hlink
  obtain ⟨-, -, hitems⟩ := writeImportedItem_eq_ok hwritten
  intro row hrow
  have hfind : written.bibliographyItems.find row.itemId = some row := Table.find_of_mem hrow
  have hold : ∀ {id old}, db.bibliographyItems.find id = some old → 0 < old.revision :=
    fun hfind => h _ (Table.mem_of_find hfind)
  rw [hitems] at hfind
  split_ifs at hfind
  · cases mutation with
    | create item link =>
      rw [← Option.some.inj hfind]
      exact item.positive
    | update itemId csl revision link updatedAt =>
      obtain ⟨old, -, rfl⟩ := Option.map_eq_some_iff.mp hfind
      exact Nat.succ_pos _
    | keep revision link => exact hold hfind
  · exact hold hfind

/-- An operation of the library leaves every item with a revision. -/
theorem ItemsPositive.step (h : db.ItemsPositive) {t : TimedOperation}
    (hstep : t.Step lib db db') : db'.ItemsPositive := by
  cases hstep.libraryMove with
  | same hsame =>
    unfold ItemsPositive
    rw [hsame.items]
    exact h
  | insert actor csl itemId value hlabel hinsert =>
    obtain ⟨-, -, -, -, hitems⟩ := insertItem_eq_ok hinsert
    exact h.replace Nat.one_pos hitems
  | update actor csl itemId revision value hlabel hupdate =>
    obtain ⟨old, new, hold, -, -, hnew, -, -, hitems⟩ := writeOwnedItem_eq_ok hupdate
    have hid : new.itemId = itemId := by
      rw [hnew]
      exact Table.key_of_find hold
    rw [← hid] at hitems
    refine h.replace ?_ hitems
    rw [hnew]
    exact Nat.succ_pos _
  | delete actor itemId revision old hlabel hold hdelete =>
    subst hdelete
    exact fun row hrow => h row (Table.mem_deleteWhere.mp hrow).1
  | «import» read actor input decisions previewToken sourceId itemIds commit result hlabel hplan
      happly =>
    obtain ⟨-, -, -, revision, stored, hstored, hmutations, -⟩ := applyImport_eq_ok.mp happly
    obtain ⟨sources, rfl⟩ := persistSource_eq hstored
    have hstart : ({ db with bibliographyImportSources := sources } : Database).ItemsPositive := h
    exact Except.foldlM_invariant hmutations hstart
      fun _ _ _ _ hs hmutation => hs.applyMutation hmutation

/-- A library depends on its own tables, and on principals only in that its owners have one. -/
theorem LibraryConsistent.of_eq {json : JsonCodec} (h : db.LibraryConsistent json)
    (hitems : db'.bibliographyItems = db.bibliographyItems)
    (hsources : db'.bibliographyImportSources = db.bibliographyImportSources)
    (hlinks : db'.bibliographyImportLinks = db.bibliographyImportLinks)
    (howners : ∀ q, (∃ identity, db.primaryIdentity q = some identity) →
      ∃ identity, db'.primaryIdentity q = some identity)
    (hprincipals : db'.PrincipalsConsistent) : db'.LibraryConsistent json := by
  refine ⟨hprincipals, ?_, ?_, ?_, ?_, ?_⟩
  · rw [hitems]
    exact fun row hrow => howners _ (h.owners row hrow)
  · rw [hitems]
    exact h.keys
  · rw [hitems]
    exact h.documents
  · unfold LinkReferences
    rw [hlinks, hsources, hitems]
    exact h.references
  · rw [hlinks, hitems]
    exact h.imported

/-- Every stored list of macros is valid and read back, and has a known owner. -/
structure MacrosSound (codec : MathMacroCodec) (db : Database) : Prop where
  stored : ∀ row ∈ db.mathMacroSettings, 0 < row.revision ∧ ∃ macros,
    validateStoredMathMacros macros = .ok () ∧ codec.Rereads macros ∧
      row.macrosJson = codec.encode macros
  owner : ∀ row ∈ db.mathMacroSettings, db.Known row.owner

section Macros

variable {codec : MathMacroCodec}

theorem macrosSound_empty : empty.MacrosSound codec := by
  refine ⟨?_, ?_⟩ <;> exact fun _ h => absurd h Table.not_mem_empty

theorem MacrosSound.of_eq (h : db.MacrosSound codec)
    (hmacros : db'.mathMacroSettings = db.mathMacroSettings)
    (hknown : ∀ q, db.Known q → db'.Known q) : db'.MacrosSound codec where
  stored := by
    rw [hmacros]
    exact h.stored
  owner row hrow := hknown _ (h.owner row (hmacros ▸ hrow))

theorem MacrosSound.replace (h : db.MacrosSound codec) {actor : Actor} {macros : List MathMacro}
    {expectedRevision : ℤ} {settings : MathMacroSettings} (hrereads : codec.Rereads macros)
    (hreplace : db.replaceMathMacros codec actor macros expectedRevision = .ok (settings, db')) :
    db'.MacrosSound codec := by
  obtain ⟨haccepted, hstored⟩ := replaceMathMacros_eq_ok hreplace
  obtain ⟨hknown, -, -, rows, rfl, hrows⟩ := storeMathMacros_eq_ok hstored
  have hmem : ∀ row ∈ rows, row = ⟨actor.principalId, codec.encode macros,
      db.mathMacroRevision actor.principalId + 1⟩ ∨ row ∈ db.mathMacroSettings := by
    intro row hrow
    have hfind : rows.find row.owner = some row := Table.find_of_mem hrow
    rw [hrows] at hfind
    split_ifs at hfind
    · exact Or.inl (Option.some.inj hfind).symm
    · exact Or.inr (Table.mem_of_find hfind)
  have hactor : db.Known actor.principalId := by
    rcases hknown with hprincipal | hsettings
    · exact Option.isSome_iff_exists.mp hprincipal
    · obtain ⟨row, hrow⟩ := Option.isSome_iff_exists.mp hsettings
      have hid : row.owner = actor.principalId := Table.key_of_find hrow
      exact hid ▸ h.owner row (Table.mem_of_find hrow)
  refine ⟨fun row hrow => ?_, fun row hrow => ?_⟩
  · rcases hmem row hrow with rfl | hrow
    · exact ⟨Nat.succ_pos _, macros, haccepted.validateStored, hrereads, rfl⟩
    · exact h.stored row hrow
  · rcases hmem row hrow with rfl | hrow
    · exact hactor
    · exact h.owner row hrow

end Macros

/-! ## What is recorded -/

end Database

/-- What the service calls outside its crates : the digest and the formats of images, and the
readers of the library's texts and of stored macros. -/
structure ServiceLibrary where
  attachments : AttachmentLibrary
  imports : ImportLibrary
  macros : MathMacroCodec

namespace Database

variable {service : ServiceLibrary} {db db' : Database}

/-- What holds of the notes, their history, their images and their grants. -/
structure NotesRecorded (service : ServiceLibrary) (db : Database) : Prop
    extends NotesComplete db where
  grants : db.GrantsSound
  images : db.ImagesSound service.attachments

/-- What holds of the libraries, their imports and the macros. -/
structure LibraryRecorded (service : ServiceLibrary) (db : Database) : Prop where
  library : db.LibraryConsistent service.imports.json
  positive : db.ItemsPositive
  imports : db.ImportsSound
  macros : db.MacrosSound service.macros

/-- What holds of the whole database between transactions. -/
structure ServiceSound (service : ServiceLibrary) (db : Database) : Prop extends
    NotesRecorded service db, LibraryRecorded service db where
  bindings : db.BindingsWhole

theorem serviceSound_empty : empty.ServiceSound service where
  notes := notesSound_empty
  history := historyComplete_empty
  grants := grantsSound_empty
  images := imagesSound_empty
  library := libraryConsistent_empty
  positive := itemsPositive_empty
  imports := importsSound_empty
  macros := macrosSound_empty
  bindings := bindingsWhole_empty

theorem NotesRecorded.of_eq (h : db.NotesRecorded service) (hbindings : db'.BindingsWhole)
    (hknown : ∀ q, db.Known q → db'.Known q) (hnotes : db'.notes = db.notes)
    (hrevisions : db'.noteRevisions = db.noteRevisions)
    (hattachments : db'.noteAttachments = db.noteAttachments)
    (hshown : db'.noteRevisionAttachments = db.noteRevisionAttachments)
    (hacl : db'.noteAcl = db.noteAcl) : db'.NotesRecorded service where
  toNotesComplete := h.toNotesComplete.of_eq hbindings.consistent hknown hnotes hrevisions
    hattachments hshown hacl
  grants := h.grants.of_eq hnotes (hacl ▸ fun _ hrow => hrow)
  images := h.images.of_eq hattachments (hnotes ▸ fun note hnote => ⟨note, hnote, rfl⟩) hknown

/-- Libraries depend on their own tables, and on principals only in that their owners are
there. -/
theorem LibraryRecorded.of_eq (h : db.LibraryRecorded service) (hbindings : db'.BindingsWhole)
    (hknown : ∀ q, db.Known q → db'.Known q)
    (hitems : db'.bibliographyItems = db.bibliographyItems)
    (hsources : db'.bibliographyImportSources = db.bibliographyImportSources)
    (hlinks : db'.bibliographyImportLinks = db.bibliographyImportLinks)
    (hmacros : db'.mathMacroSettings = db.mathMacroSettings) (hwhole : db.BindingsWhole) :
    db'.LibraryRecorded service where
  library := h.library.of_eq hitems hsources hlinks
    (fun _ ⟨_, hidentity⟩ => hbindings.exists_primaryIdentity (hknown _ (hwhole.known hidentity)))
    hbindings.consistent
  positive := by
    unfold ItemsPositive
    rw [hitems]
    exact h.positive
  imports := h.imports.of_eq hsources (hlinks ▸ fun _ hlink => hlink) hknown
  macros := h.macros.of_eq hmacros hknown

theorem BindingsWhole.same (h : db.BindingsWhole) (hprincipals : db'.principals = db.principals)
    (hidentities : db'.principalIdentities = db.principalIdentities) :
    db'.BindingsWhole ∧ ∀ q, db.Known q → db'.Known q := by
  have hsame : db.SameBindings db' := ⟨hprincipals, hidentities⟩
  refine ⟨hsame.whole h, fun q hq => ?_⟩
  unfold Known
  rwa [hprincipals]

/-- A transaction on principals, on other tables or on none. -/
theorem ServiceSound.of_principals (h : db.ServiceSound service) (hbindings : db'.BindingsWhole)
    (hknown : ∀ q, db.Known q → db'.Known q)
    (hsame : ∃ principals identities, db' = { db with
      principals := principals, principalIdentities := identities }) :
    db'.ServiceSound service := by
  obtain ⟨principals, identities, rfl⟩ := hsame
  exact ⟨h.toNotesRecorded.of_eq hbindings hknown rfl rfl rfl rfl rfl,
    h.toLibraryRecorded.of_eq hbindings hknown rfl rfl rfl rfl h.bindings, hbindings⟩

/-! ## What the transactions keep -/

theorem ServiceSound.login (h : db.ServiceSound service) (identity : Identity) :
    (db.login identity).ServiceSound service :=
  h.of_principals (h.bindings.login identity).1 (fun _ hq => login_principals db identity hq)
    (login_eq db identity)

theorem ServiceSound.maintainIdentity (h : db.ServiceSound service)
    (environment : MaintenanceEnvironment μ) (request : IdentityMaintenanceRequest) :
    (db.maintainIdentity environment request).2.ServiceSound service := by
  rcases maintainIdentity_cases environment request db with
    ⟨-, error, heq⟩ | ⟨committed, ⟨principalId, report, -, hcommit⟩, heq, -⟩
  · rw [heq]
    exact h
  · rw [heq]
    have hwrite := (commitMaintenance_eq_ok hcommit).1
    obtain ⟨⟨identities, rfl⟩, -⟩ := writeMaintenance_binds hwrite
    exact h.of_principals (h.bindings.writeMaintenance hwrite).1 (fun _ hq => hq) ⟨_, _, rfl⟩

theorem NotesRecorded.store (h : db.NotesRecorded service)
    {op : StoreOperation service.attachments} (hlogin : ∀ identity, op ≠ .login identity)
    (hother : ∀ tables, op ≠ .elsewhere tables)
    (hknown : ∀ q, db.Known q → (op.apply db).Known q) :
    (op.apply db).NotesRecorded service := by
  have hgrantsImages :
      (op.apply db).GrantsSound ∧ (op.apply db).ImagesSound service.attachments := by
    cases op with
    | login identity => exact absurd rfl (hlogin identity)
    | elsewhere tables => exact absurd rfl (hother tables)
    | command c =>
      show (db.commit (c.exec db)).GrantsSound ∧ (db.commit (c.exec db)).ImagesSound _
      cases hexec : c.exec db with
      | error e => exact ⟨h.grants, h.images⟩
      | ok written =>
        refine ⟨h.grants.command hexec, ?_⟩
        obtain ⟨new, happends⟩ := NoteCommand.exec_appends_history hexec
        refine h.images.of_eq happends.attachments (fun note hnote => ?_) ?_
        · by_cases hid : c.noteId = note.noteId
          · have hfind := happends.notes note.noteId
            rw [if_pos hid] at hfind
            exact ⟨new, Table.mem_of_find hfind, Table.key_of_find hfind⟩
          · have hold : db.notes.find note.noteId = some note := Table.find_of_mem hnote
            have hfind := happends.notes note.noteId
            rw [if_neg hid, hold] at hfind
            exact ⟨note, Table.mem_of_find hfind, rfl⟩
        · have happly :
              (StoreOperation.command c : StoreOperation service.attachments).apply db =
                written := by
            show db.commit (c.exec db) = written
            rw [hexec]
            rfl
          exact happly ▸ hknown
    | attachment c =>
      show (db.commit (c.exec db)).GrantsSound ∧ (db.commit (c.exec db)).ImagesSound _
      cases hexec : c.exec db with
      | error e => exact ⟨h.grants, h.images⟩
      | ok written =>
        refine ⟨?_, h.images.attachmentCommand h.notes hexec⟩
        rcases AttachmentCommand.exec_cases hexec with ⟨-, -, rows, -, -, -, -, -, -, rfl⟩ |
          ⟨-, -, -, rfl⟩ <;> exact h.grants
    | purgeAttachments cutoff => exact ⟨h.grants, h.images.delete _⟩
    | purgeNotes cutoff =>
      show (db.commit ((db.purgeDeletedBefore cutoff).map Prod.snd)).GrantsSound ∧
        (db.commit ((db.purgeDeletedBefore cutoff).map Prod.snd)).ImagesSound _
      rcases h.history.stored.purge_cases cutoff with ⟨e, he⟩ |
        ⟨count, purged, ns, hpurge, hwithout, -, -⟩
      · rw [he]
        exact ⟨h.grants, h.images⟩
      · have happly :
            (StoreOperation.purgeNotes cutoff : StoreOperation service.attachments).apply db =
              purged := by
          show db.commit ((db.purgeDeletedBefore cutoff).map Prod.snd) = purged
          rw [hpurge]
          rfl
        rw [hpurge]
        exact ⟨h.grants.withoutNotes hwithout, h.images.withoutNotes hwithout (happly ▸ hknown)⟩
  exact ⟨⟨h.notes.apply op, h.history.apply op⟩, hgrantsImages.1, hgrantsImages.2⟩

theorem ServiceSound.store (h : db.ServiceSound service)
    {op : StoreOperation service.attachments} (hother : ∀ tables, op ≠ .elsewhere tables) :
    (op.apply db).ServiceSound service := by
  by_cases hlogin : ∃ identity, op = .login identity
  · obtain ⟨identity, rfl⟩ := hlogin
    exact h.login identity
  · have hnot : ∀ identity, op ≠ .login identity := fun identity heq => hlogin ⟨identity, heq⟩
    have hsame := sameUserTables_store hnot hother db
    obtain ⟨hbindings, hknown⟩ := h.bindings.same hsame.principals hsame.principalIdentities
    exact ⟨h.toNotesRecorded.store hnot hother hknown,
      h.toLibraryRecorded.of_eq hbindings hknown hsame.items hsame.sources hsame.links
        hsame.macros h.bindings, hbindings⟩

theorem ServiceSound.libraryStep (h : db.ServiceSound service) {t : TimedOperation}
    (hlibrary : t.OfLibrary) (hstep : t.Step service.imports db db') :
    db'.ServiceSound service := by
  obtain ⟨hsame, hmacros⟩ := sameButLibrary_step hlibrary hstep
  obtain ⟨hbindings, hknown⟩ := h.bindings.same hsame.principals hsame.principalIdentities
  exact ⟨h.toNotesRecorded.of_eq hbindings hknown hsame.notes hsame.noteRevisions
    hsame.noteAttachments hsame.noteRevisionAttachments hsame.noteAcl,
    ⟨h.library.step hstep, h.positive.step hstep, h.imports.step hlibrary hstep,
      h.macros.of_eq hmacros hknown⟩,
    hbindings⟩

theorem ServiceSound.replaceMathMacros (h : db.ServiceSound service) {actor : Actor}
    {macros : List MathMacro} {expectedRevision : ℤ} {settings : MathMacroSettings}
    (hrereads : service.macros.Rereads macros)
    (hreplace : db.replaceMathMacros service.macros actor macros expectedRevision =
      .ok (settings, db')) : db'.ServiceSound service := by
  have hmacros := h.macros.replace hrereads hreplace
  obtain ⟨-, hstored⟩ := replaceMathMacros_eq_ok hreplace
  obtain ⟨-, -, -, rows, rfl, -⟩ := storeMathMacros_eq_ok hstored
  have hsame : db.SameBindings { db with mathMacroSettings := rows } := ⟨rfl, rfl⟩
  obtain ⟨hbindings, hknown⟩ := h.bindings.same hsame.principals hsame.identities
  exact ⟨h.toNotesRecorded.of_eq hbindings hknown rfl rfl rfl rfl rfl,
    ⟨h.library.of_eq rfl rfl rfl (fun _ hidentity => hidentity) hbindings.consistent,
      h.positive, h.imports.of_eq rfl (fun _ hlink => hlink) hknown, hmacros⟩, hbindings⟩

end Database

end Marginalis
