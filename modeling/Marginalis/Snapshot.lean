import Marginalis.BibliographyImport
import Marginalis.IdentityMaintenance
import Marginalis.MathMacros
import Marginalis.NoteQueries

/-!
# Logical snapshots

A snapshot holds all that is stored, whatever the storage. Its constructors check how its parts
refer to each other, part by part, and reject the first entry that does not fit by its position.
A snapshot that comes from them is `Valid`, and what an export relies on holds of it
(`Valid.consistent`).
-/

namespace Marginalis

open Table (orderBy)

structure MathMacroSettings where
  macros : List MathMacro
  revision : ℤ
  deriving DecidableEq

structure MathMacroSettingsSnapshot where
  owner : PrincipalRef
  settings : MathMacroSettings
  deriving DecidableEq

structure NoteAclSnapshotEntry where
  noteId : NoteId
  principal : PrincipalRef
  permission : NotePermission
  deriving DecidableEq

structure NoteRevisionAttachment where
  noteId : NoteId
  revision : ℕ
  attachmentId : AttachmentId
  deriving DecidableEq

inductive InvalidSnapshot
  | duplicateNote (position : ℕ)
  | invalidAclEntry (position : ℕ)
  | invalidNoteRevision (position : ℕ)
  | invalidAttachment (position : ℕ)
  | invalidAttachmentReference (position : ℕ)
  | invalidBibliographyItem (position : ℕ)
  | invalidBibliographyImportSource (position : ℕ)
  | invalidBibliographyImportLink (position : ℕ)
  | invalidMathMacroSettings (position : ℕ)
  | invalidPrincipal (position : ℕ)
  | invalidPrincipalReference
  deriving DecidableEq

/-! ## Checks of every entry -/

section Checks

variable {α κ σ : Type}

/-- The loop over the entries of a part, which are numbered from one on. A check has no result
for an entry that does not fit. -/
def checkEach (invalid : ℕ → InvalidSnapshot) (check : σ → α → Option σ) :
    ℕ → σ → List α → Except InvalidSnapshot σ
  | _, state, [] => .ok state
  | position, state, entry :: entries =>
    match check state entry with
    | none => .error (invalid position)
    | some state => checkEach invalid check (position + 1) state entries

/-- `HashSet::insert`, for a key that has to be new. -/
def insertNew [DecidableEq κ] (seen : List κ) (key : κ) : Option (List κ) :=
  if key ∈ seen then none else some (key :: seen)

/-- What holds before the loop and is kept by every entry holds after it. -/
theorem checkEach_invariant (P : σ → List α → Prop) {invalid : ℕ → InvalidSnapshot}
    {check : σ → α → Option σ} (hstep : ∀ {state checked entry state'}, P state checked →
      check state entry = some state' → P state' (checked ++ [entry])) :
    ∀ {entries checked : List α} {position : ℕ} {state result : σ}, P state checked →
      checkEach invalid check position state entries = .ok result → P result (checked ++ entries)
  | [], checked, position, state, result, hstate, h => by
    obtain rfl := Except.ok.inj h
    rwa [List.append_nil]
  | entry :: entries, checked, position, state, result, hstate, h => by
    rw [checkEach] at h
    cases hcheck : check state entry with
    | none =>
      rw [hcheck] at h
      cases h
    | some state' =>
      rw [hcheck] at h
      have hrest := checkEach_invariant P hstep (hstep hstate hcheck) h
      rwa [List.append_assoc] at hrest

theorem insertNew_eq_some [DecidableEq κ] {seen seen' : List κ} {key : κ} :
    insertNew seen key = some seen' ↔ key ∉ seen ∧ seen' = key :: seen := by
  rw [insertNew]
  by_cases hkey : key ∈ seen
  · simp [hkey]
  · simp [hkey, eq_comm]

/-- Keys that are new each time differ from each other. -/
theorem nodup_of_checkEach [DecidableEq κ] (key : α → κ) (seen : σ → List κ)
    {invalid : ℕ → InvalidSnapshot} {check : σ → α → Option σ} {entries : List α}
    {position : ℕ} {start result : σ} (hstart : seen start = [])
    (hcheck : ∀ {state entry state'}, check state entry = some state' →
      insertNew (seen state) (key entry) = some (seen state'))
    (h : checkEach invalid check position start entries = .ok result) :
    (entries.map key).Nodup := by
  have hinv : (seen result) = (([] ++ entries).map key).reverse ∧
      (([] ++ entries).map key).Nodup := by
    refine checkEach_invariant (fun state checked =>
      seen state = (checked.map key).reverse ∧ (checked.map key).Nodup) ?_ ⟨hstart, by simp⟩ h
    rintro state checked entry state' ⟨hseen, hnodup⟩ hstep
    obtain ⟨hnew, heq⟩ := insertNew_eq_some.mp (hcheck hstep)
    rw [hseen] at hnew heq
    refine ⟨by rw [heq, List.map_append, List.reverse_append]; rfl, ?_⟩
    rw [List.map_append, List.map_singleton]
    refine List.nodup_append.mpr ⟨hnodup, List.nodup_singleton _, fun a ha b hb heq => hnew ?_⟩
    rw [List.mem_reverse, ← List.mem_singleton.mp hb, ← heq]
    exact ha
  exact hinv.2

end Checks

/-! ## The snapshot -/

/-- Both notes are the same, their principals by their ids. -/
def Note.SameValues (a b : Note) : Prop :=
  a.owner.Same b.owner ∧ { a.toNoteRestore with owner := b.owner, review := b.review } =
      b.toNoteRestore ∧
    match a.review, b.review with
    | .unknown, .unknown => True
    | .tracked none, .tracked none => True
    | .tracked (some r), .tracked (some r') =>
      r.revision = r'.revision ∧ r.reviewedAt = r'.reviewedAt ∧ r.reviewer.Same r'.reviewer
    | _, _ => False

instance (a b : Note) : Decidable (a.SameValues b) := by
  unfold Note.SameValues
  have : Decidable (match a.review, b.review with
    | .unknown, .unknown => True
    | .tracked none, .tracked none => True
    | .tracked (some r), .tracked (some r') =>
      r.revision = r'.revision ∧ r.reviewedAt = r'.reviewedAt ∧ r.reviewer.Same r'.reviewer
    | _, _ => False) := by
    split <;> infer_instance
  infer_instance

structure LogicalSnapshot (lib : AttachmentLibrary) (json : JsonCodec) where
  principals : List Principal
  notes : List Note
  noteRevisions : List NoteRevisionSnapshot
  attachments : List (StoredAttachment lib)
  noteRevisionAttachments : List NoteRevisionAttachment
  noteAcl : List NoteAclSnapshotEntry
  bibliographyItems : List (BibliographyItem json)
  bibliographyImportSources : List BibliographyImportSource
  bibliographyImportLinks : List BibliographyImportLink
  mathMacroSettings : List MathMacroSettingsSnapshot

/-- `Principal::single`. -/
def Principal.single (reference : PrincipalRef) : Principal where
  reference := reference
  identities := [reference.primaryIdentity]
  primary_mem := List.mem_singleton_self _
  nodup := List.nodup_singleton _

namespace LogicalSnapshot

variable {lib : AttachmentLibrary} {json : JsonCodec} (s : LogicalSnapshot lib json)

/-! ## Principals -/

def principalReferences : List PrincipalRef :=
  (s.notes.flatMap fun note =>
      note.owner :: (note.review.lastReview.map NoteReviewRecord.reviewer).toList) ++
    (s.noteRevisions.flatMap fun revision =>
      revision.changedBy ::
        (revision.note.review.lastReview.map NoteReviewRecord.reviewer).toList) ++
    (s.attachments.map fun attachment => attachment.metadata.createdBy) ++
    s.noteAcl.map NoteAclSnapshotEntry.principal ++
    s.bibliographyItems.map BibliographyItem.owner ++
    s.bibliographyImportSources.map BibliographyImportSource.owner ++
    s.mathMacroSettings.map MathMacroSettingsSnapshot.owner

/-- The loop of `include_referenced_principals` for one reference. -/
def includePrincipal (principals : List Principal) (reference : PrincipalRef) :
    Except InvalidSnapshot (List Principal) :=
  match principals.find? fun principal => principal.reference.id = reference.id with
  | some principal =>
    if principal.reference.primaryIdentity ≠ reference.primaryIdentity then
      .error .invalidPrincipalReference
    else .ok principals
  | none =>
    if principals.any fun principal => reference.primaryIdentity ∈ principal.identities then
      .error .invalidPrincipalReference
    else .ok (principals ++ [Principal.single reference])

def includeReferencedPrincipals : Except InvalidSnapshot (LogicalSnapshot lib json) := do
  let principals ← s.principalReferences.foldlM includePrincipal s.principals
  return { s with principals }

def validatePrincipalReferences : Except InvalidSnapshot Unit :=
  if s.principalReferences.all fun reference =>
      (s.principals.find? fun principal => principal.reference.id = reference.id).any
        fun principal =>
        principal.reference.primaryIdentity = reference.primaryIdentity then .ok ()
  else .error .invalidPrincipalReference

def withPrincipals (principals : List Principal) :
    Except InvalidSnapshot (LogicalSnapshot lib json) := do
  let _ ← checkEach .invalidPrincipal
    (fun (seen : List PrincipalId × List Identity) (principal : Principal) =>
      if principal.identities.any fun identity => identity ∈ seen.2 then none
      else (insertNew seen.1 principal.reference.id).map fun ids =>
        (ids, principal.identities ++ seen.2)) 1 ([], []) principals
  let restored := { s with principals }
  restored.validatePrincipalReferences
  return restored

/-! ## Notes -/

/-- The check of an ACL entry : its note exists and has another owner, and no entry before gives
the principal a permission. -/
def checkAclEntry (notes : List Note) (seen : List (NoteId × PrincipalId))
    (entry : NoteAclSnapshotEntry) : Option (List (NoteId × PrincipalId)) :=
  match notes.find? fun note => note.noteId = entry.noteId with
  | none => none
  | some note =>
    if entry.principal.Same note.owner then none
    else insertNew seen (entry.noteId, entry.principal.id)

def new (notes : List Note) (noteAcl : List NoteAclSnapshotEntry) :
    Except InvalidSnapshot (LogicalSnapshot lib json) := do
  let _ ← checkEach .duplicateNote (fun seen note => insertNew seen note.noteId) 1 [] notes
  let _ ← checkEach .invalidAclEntry (checkAclEntry notes) 1 [] noteAcl
  includeReferencedPrincipals
    { principals := []
      notes
      noteRevisions := notes.map fun note => ⟨note, note.owner, .imported⟩
      attachments := []
      noteRevisionAttachments := []
      noteAcl
      bibliographyItems := []
      bibliographyImportSources := []
      bibliographyImportLinks := []
      mathMacroSettings := [] }

/-- The check of a revision. -/
def checkRevision (notes : List Note) (seen : List (NoteId × ℕ)) (entry : NoteRevisionSnapshot) :
    Option (List (NoteId × ℕ)) :=
  match notes.find? fun note => note.noteId = entry.note.noteId with
  | none => none
  | some current =>
    if ¬entry.note.owner.Same current.owner ∨ entry.note.createdAt ≠ current.createdAt ∨
        entry.note.createdVia ≠ current.createdVia ∨ current.revision < entry.note.revision then
      none
    else insertNew seen (entry.note.noteId, entry.note.revision)

/-- The history of a note ends with the note and has no gap. -/
def isCompleteHistory (history : List NoteRevisionSnapshot) (current : Note) : Bool :=
  match history.getLast? with
  | none => false
  | some latest =>
    latest.note.SameValues current ∧
      (history.zip history.tail).all fun pair =>
        pair.2.note.revision = pair.1.note.revision + 1

def withNoteRevisions (revisions : List NoteRevisionSnapshot) :
    Except InvalidSnapshot (LogicalSnapshot lib json) := do
  let revisions := orderBy
    (fun entry => toLex (entry.note.noteId.entityId, entry.note.revision)) revisions
  let _ ← checkEach .invalidNoteRevision (checkRevision s.notes) 1 [] revisions
  if s.notes.all fun current =>
      isCompleteHistory (revisions.filter fun entry => entry.note.noteId = current.noteId)
        current then
    includeReferencedPrincipals { s with noteRevisions := revisions }
  else .error (.invalidNoteRevision 1)

/-! ## Attachments -/

/-- The check of an attachment, with the attachments before it. -/
def checkAttachment (seen : List (StoredAttachment lib)) (attachment : StoredAttachment lib) :
    Option (List (StoredAttachment lib)) :=
  let metadata := attachment.metadata
  let ofNote := seen.filter fun other => other.metadata.noteId = metadata.noteId
  let bytes := (ofNote.map fun other => other.metadata.byteLength).sum + metadata.byteLength
  if metadata.attachmentId ∈ seen.map (fun other => other.metadata.attachmentId) ∨
      metadata.noteId ∉ s.notes.map (fun note => note.noteId) ∨
      metadata.createdBy.id ∉ s.principals.map (fun principal => principal.reference.id) ∨
      attachmentPolicy.maxAttachmentsPerNote < ofNote.length + 1 ∨
      attachmentPolicy.maxBytesPerNote < bytes then none
  else some (attachment :: seen)

/-- The check of a reference : the revision exists, and the attachment is one of its note. -/
def checkAttachmentReference (attachments : List (StoredAttachment lib))
    (seen : List NoteRevisionAttachment) (reference : NoteRevisionAttachment) :
    Option (List NoteRevisionAttachment) :=
  if (reference.noteId, reference.revision) ∉
      s.noteRevisions.map (fun entry => (entry.note.noteId, entry.note.revision)) ∨
      ((attachments.find? fun attachment =>
        attachment.metadata.attachmentId = reference.attachmentId).map fun attachment =>
          attachment.metadata.noteId) ≠ some reference.noteId then none
  else insertNew seen reference

def withAttachments (attachments : List (StoredAttachment lib))
    (references : List NoteRevisionAttachment) :
    Except InvalidSnapshot (LogicalSnapshot lib json) := do
  let attachments := orderBy (fun attachment => attachment.metadata.attachmentId.entityId)
    attachments
  let references := orderBy (fun reference => toLex (reference.noteId.entityId,
    toLex (reference.revision, reference.attachmentId.entityId))) references
  let _ ← checkEach .invalidAttachment s.checkAttachment 1 [] attachments
  let _ ← checkEach .invalidAttachmentReference (s.checkAttachmentReference attachments) 1 []
    references
  includeReferencedPrincipals { s with attachments, noteRevisionAttachments := references }

/-! ## Bibliography -/

/-- The check of an item : its id is new, and so is its citation key for its owner. -/
def checkItem (seen : List BibliographyItemId × List (PrincipalId × String))
    (item : BibliographyItem json) :
    Option (List BibliographyItemId × List (PrincipalId × String)) := do
  let ids ← insertNew seen.1 item.itemId
  let keys ← insertNew seen.2 (item.owner.id, item.citationKey)
  return (ids, keys)

/-- The check of a link : its source and its item exist and have one owner, the item has got at
least to the revision of the import, and the source has no other link for the external item. -/
def checkLink (items : List (BibliographyItem json)) (sources : List BibliographyImportSource)
    (seen : List (BibliographyImportSourceId × String)) (link : BibliographyImportLink) :
    Option (List (BibliographyImportSourceId × String)) := do
  let source ← sources.find? fun source => source.sourceId = link.sourceId
  let item ← items.find? fun item => item.itemId = link.itemId
  if ¬source.owner.Same item.owner ∨ item.revision < link.importedItemRevision then none
  else insertNew seen (link.sourceId, link.externalItemId)

def withBibliographyData (items : List (BibliographyItem json))
    (sources : List BibliographyImportSource) (links : List BibliographyImportLink) :
    Except InvalidSnapshot (LogicalSnapshot lib json) := do
  let _ ← checkEach .invalidBibliographyItem checkItem 1 ([], []) items
  let _ ← checkEach .invalidBibliographyImportSource
    (fun seen source => insertNew seen source.sourceId) 1 [] sources
  let _ ← checkEach .invalidBibliographyImportLink (checkLink items sources) 1 [] links
  includeReferencedPrincipals
    { s with
      bibliographyItems := items
      bibliographyImportSources := sources
      bibliographyImportLinks := links }

/-! ## Math macros -/

/-- The check of settings : a stored revision, one settings for each owner, and macros that are
valid as stored ones. -/
def checkMathMacroSettings (seen : List PrincipalId) (entry : MathMacroSettingsSnapshot) :
    Option (List PrincipalId) :=
  if entry.settings.revision < 1 then none
  else do
    let owners ← insertNew seen entry.owner.id
    match validateStoredMathMacros entry.settings.macros with
    | .error _ => none
    | .ok () => some owners

def withMathMacroSettings (settings : List MathMacroSettingsSnapshot) :
    Except InvalidSnapshot (LogicalSnapshot lib json) := do
  let _ ← checkEach .invalidMathMacroSettings checkMathMacroSettings 1 [] settings
  includeReferencedPrincipals { s with mathMacroSettings := settings }

/-! ## Valid snapshots -/

/-- A snapshot that comes from the constructors. -/
inductive Valid : LogicalSnapshot lib json → Prop
  | new {notes noteAcl s} (h : new notes noteAcl = .ok s) : Valid s
  | withPrincipals {s s' principals} (hs : Valid s) (h : s.withPrincipals principals = .ok s') :
      Valid s'
  | withNoteRevisions {s s' revisions} (hs : Valid s)
      (h : s.withNoteRevisions revisions = .ok s') : Valid s'
  | withAttachments {s s' attachments references} (hs : Valid s)
      (h : s.withAttachments attachments references = .ok s') : Valid s'
  | withBibliographyData {s s' items sources links} (hs : Valid s)
      (h : s.withBibliographyData items sources links = .ok s') : Valid s'
  | withMathMacroSettings {s s' settings} (hs : Valid s)
      (h : s.withMathMacroSettings settings = .ok s') : Valid s'

/-- What an export of notes and attachments relies on. -/
structure Consistent : Prop where
  notes : (s.notes.map fun note => note.noteId).Nodup
  attachments : (s.attachments.map fun attachment => attachment.metadata.attachmentId).Nodup
  references : s.noteRevisionAttachments.Nodup
  shown : ∀ reference ∈ s.noteRevisionAttachments, ∃ attachment ∈ s.attachments,
    attachment.metadata.attachmentId = reference.attachmentId ∧
      attachment.metadata.noteId = reference.noteId

variable {s} {s' : LogicalSnapshot lib json}

theorem includeReferencedPrincipals_eq_ok (h : s.includeReferencedPrincipals = .ok s') :
    ∃ principals, s' = { s with principals } := by
  obtain ⟨principals, -, h⟩ := Except.bind_eq_ok.mp h
  exact ⟨principals, (Except.ok.inj h).symm⟩

theorem new_consistent {notes : List Note} {noteAcl : List NoteAclSnapshotEntry}
    (h : new notes noteAcl = .ok s) : s.Consistent := by
  obtain ⟨ids, hids, h⟩ := Except.bind_eq_ok.mp h
  obtain ⟨-, -, h⟩ := Except.bind_eq_ok.mp h
  obtain ⟨principals, rfl⟩ := includeReferencedPrincipals_eq_ok h
  refine ⟨?_, List.nodup_nil, List.nodup_nil, fun reference hreference => nomatch hreference⟩
  exact nodup_of_checkEach (fun note : Note => note.noteId) id rfl (fun hstep => hstep) hids

theorem withAttachments_consistent {attachments : List (StoredAttachment lib)}
    {references : List NoteRevisionAttachment} (hs : s.Consistent)
    (h : s.withAttachments attachments references = .ok s') : s'.Consistent := by
  obtain ⟨checked, hattachments, h⟩ := Except.bind_eq_ok.mp h
  obtain ⟨seen, hreferences, h⟩ := Except.bind_eq_ok.mp h
  obtain ⟨principals, rfl⟩ := includeReferencedPrincipals_eq_ok h
  refine ⟨hs.notes, ?_, ?_, ?_⟩
  · have hstep : ∀ {seen attachment seen'}, s.checkAttachment seen attachment = some seen' →
        insertNew (seen.map fun other => other.metadata.attachmentId)
          attachment.metadata.attachmentId =
            some (seen'.map fun other => other.metadata.attachmentId) := by
      intro seen attachment seen' hstep
      unfold checkAttachment at hstep
      dsimp only at hstep
      split_ifs at hstep with hinvalid
      obtain rfl := Option.some.inj hstep
      exact insertNew_eq_some.mpr ⟨fun hmem => hinvalid (Or.inl hmem), rfl⟩
    exact nodup_of_checkEach _ _ rfl hstep hattachments
  · have hstep : ∀ {seen reference seen'}, s.checkAttachmentReference
        (orderBy (fun attachment => attachment.metadata.attachmentId.entityId) attachments) seen
          reference = some seen' → insertNew seen reference = some seen' := by
      intro seen reference seen' hstep
      unfold checkAttachmentReference at hstep
      split_ifs at hstep
      exact hstep
    have hnodup := nodup_of_checkEach id id rfl hstep hreferences
    rwa [List.map_id] at hnodup
  · refine checkEach_invariant (fun _ checked => ∀ reference ∈ checked,
      ∃ attachment ∈ orderBy (fun attachment => attachment.metadata.attachmentId.entityId)
        attachments, attachment.metadata.attachmentId = reference.attachmentId ∧
          attachment.metadata.noteId = reference.noteId) ?_
      (fun reference (hreference : reference ∈ []) => nomatch hreference) hreferences
    · intro seen checked reference seen' hchecked hstep other hother
      rcases List.mem_append.mp hother with hother | hother
      · exact hchecked other hother
      · obtain rfl := List.mem_singleton.mp hother
        unfold checkAttachmentReference at hstep
        split_ifs at hstep with hinvalid
        rw [not_or, not_not] at hinvalid
        obtain ⟨attachment, hfind, hnote⟩ := Option.map_eq_some_iff.mp (not_not.mp hinvalid.2)
        exact ⟨attachment, List.mem_of_find?_eq_some hfind,
          by simpa using List.find?_some hfind, hnote⟩

theorem Valid.consistent (h : s.Valid) : s.Consistent := by
  induction h with
  | new h => exact new_consistent h
  | withPrincipals hs h ih =>
    obtain ⟨-, -, h⟩ := Except.bind_eq_ok.mp h
    obtain ⟨-, -, h⟩ := Except.bind_eq_ok.mp h
    obtain rfl := Except.ok.inj h
    exact ⟨ih.notes, ih.attachments, ih.references, ih.shown⟩
  | withNoteRevisions hs h ih =>
    obtain ⟨-, -, h⟩ := Except.bind_eq_ok.mp h
    split_ifs at h
    obtain ⟨principals, rfl⟩ := includeReferencedPrincipals_eq_ok h
    exact ⟨ih.notes, ih.attachments, ih.references, ih.shown⟩
  | withAttachments hs h ih => exact withAttachments_consistent ih h
  | withBibliographyData hs h ih =>
    obtain ⟨-, -, h⟩ := Except.bind_eq_ok.mp h
    obtain ⟨-, -, h⟩ := Except.bind_eq_ok.mp h
    obtain ⟨-, -, h⟩ := Except.bind_eq_ok.mp h
    obtain ⟨principals, rfl⟩ := includeReferencedPrincipals_eq_ok h
    exact ⟨ih.notes, ih.attachments, ih.references, ih.shown⟩
  | withMathMacroSettings hs h ih =>
    obtain ⟨-, -, h⟩ := Except.bind_eq_ok.mp h
    obtain ⟨principals, rfl⟩ := includeReferencedPrincipals_eq_ok h
    exact ⟨ih.notes, ih.attachments, ih.references, ih.shown⟩

end LogicalSnapshot

end Marginalis
