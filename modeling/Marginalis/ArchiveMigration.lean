import Marginalis.ArchiveVerification

/-!
# Archives of the version before

Whatever the reader of archives accepts can be written again (`archivable_of_contents`) : the ids
and the identities were checked, the digests have their length, and the images of a revision are
those its source names. So once an archive of the version before was migrated, nothing of what the
maintenance does with the result stops it (`migration_verified`).
-/

namespace Marginalis

open LogicalSnapshot
open Table (orderBy)

/-- The results of a mapped computation, one for each element. -/
theorem forall₂_of_mapM_eq_some {α β : Type} {f : α → Option β} {l : List α} {l' : List β}
    (h : l.mapM f = some l') : List.Forall₂ (fun a b => f a = some b) l l' := by
  induction l generalizing l' with
  | nil =>
    obtain rfl := Option.some.inj h
    exact .nil
  | cons a l ih =>
    rw [List.mapM_cons] at h
    obtain ⟨b, hb, h⟩ := Option.bind_eq_some_iff.mp h
    obtain ⟨rest, hrest, h⟩ := Option.bind_eq_some_iff.mp h
    obtain rfl := Option.some.inj h
    exact .cons hb (ih hrest)

theorem Except.toOption_eq_some {ε α : Type} {x : Except ε α} {a : α} :
    x.toOption = some a ↔ x = .ok a := by
  cases x <;> simp [Except.toOption]

namespace ArchiveLibrary

variable {lib : ArchiveLibrary} {principals : List Principal}

/-- A UUID has 128 bits, also where a source names one. -/
structure ReadsUuids (lib : ArchiveLibrary) : Prop where
  parsed : ∀ text entityId, lib.parseUuid text = some entityId → entityId < 2 ^ 128
  named : ∀ source validated, lib.validateSource source = some validated →
    ∀ query ∈ validated.attachmentQueries, query.attachmentId.entityId < 2 ^ 128

/-! ## Values that were read -/

theorem ReadsUuids.isVersion7 (huuids : lib.ReadsUuids) {text : String} {entityId : ℕ}
    (h : lib.parseEntityId text = some entityId) : IsVersion7 entityId := by
  obtain ⟨hparse, hversion⟩ := Option.filter_eq_some_iff.mp h
  exact ⟨huuids.parsed text entityId hparse, of_decide_eq_true hversion⟩

theorem decodeSha256_lt {encoded : String} {digest : ℕ} (h : decodeSha256 encoded = some digest) :
    digest < 2 ^ 256 := by
  unfold decodeSha256 at h
  split_ifs at h with hlength
  obtain ⟨hlength, -⟩ := not_or.mp hlength
  obtain ⟨hvalue, -⟩ := Option.filter_eq_some_iff.mp h
  have hlt := Uuid.valueOfPairs_lt (k := 0) (m := 0) (by decide) hvalue
  rw [not_not.mp hlength] at hlt
  exact hlt.trans_le (by decide)

theorem readRevision_pos {value : ℤ} {revision : ℕ} (h : readRevision value = some revision) :
    0 < revision := by
  unfold readRevision at h
  split_ifs at h with hpositive
  obtain rfl := Option.some.inj h
  omega

/-! ## Principals that were read -/

theorem accepts_of_new {issuer subject : String} {identity : Identity}
    (h : Identity.new lib.url issuer subject = .ok identity) : lib.Accepts identity := by
  obtain ⟨_, hvalid, hidentity⟩ := Except.bind_eq_ok.mp h
  obtain rfl := Except.ok.inj hidentity
  exact h

theorem accepts_of_readIdentity {seen seen' : List Identity} {issuer subject : String}
    {identity : Identity} (h : lib.readIdentity seen issuer subject = some (identity, seen')) :
    lib.Accepts identity := by
  unfold readIdentity at h
  split at h
  · cases h
  · next hnew =>
    obtain ⟨_, -, heq⟩ := Option.map_eq_some_iff.mp h
    exact (Prod.mk.inj heq).1 ▸ accepts_of_new hnew

theorem accepts_of_readAliases {entries : List ArchiveIdentity} {seen seen' : List Identity}
    {identities : List Identity} (h : lib.readAliases seen entries = some (identities, seen')) :
    ∀ identity ∈ identities, lib.Accepts identity := by
  induction entries generalizing seen seen' identities with
  | nil =>
    obtain ⟨rfl, -⟩ := Prod.mk.inj (Option.some.inj h)
    simp
  | cons entry entries ih =>
    obtain ⟨⟨first, seen₁⟩, hfirst, h⟩ := Option.bind_eq_some_iff.mp h
    obtain ⟨⟨rest, seen₂⟩, hrest, h⟩ := Option.bind_eq_some_iff.mp h
    obtain ⟨rfl, -⟩ := Prod.mk.inj (Option.some.inj h)
    exact List.forall_mem_cons.mpr ⟨accepts_of_readIdentity hfirst, ih hrest⟩

theorem accepts_of_readPrincipal {entry : ArchivePrincipal} {seen seen' : List Identity}
    {parsed : Identity × List Identity} (h : lib.readPrincipal seen entry = some (parsed, seen')) :
    ∀ identity ∈ parsed.2, lib.Accepts identity := by
  obtain ⟨⟨primary, seen₁⟩, hprimary, h⟩ := Option.bind_eq_some_iff.mp h
  obtain ⟨⟨aliases, seen₂⟩, haliases, h⟩ := Option.bind_eq_some_iff.mp h
  obtain ⟨rfl, -⟩ := Prod.mk.inj (Option.some.inj h)
  exact List.forall_mem_cons.mpr
    ⟨accepts_of_readIdentity hprimary, accepts_of_readAliases haliases⟩

theorem accepts_of_readPrincipals {entries : List ArchivePrincipal} {seen : List Identity}
    {position : ℕ} {parsed : List (Identity × List Identity)}
    (h : lib.readPrincipals position seen entries = .ok parsed) :
    ∀ entry ∈ parsed, ∀ identity ∈ entry.2, lib.Accepts identity := by
  induction entries generalizing position seen parsed with
  | nil =>
    obtain rfl := Except.ok.inj h
    simp
  | cons entry entries ih =>
    rw [readPrincipals] at h
    cases hread : lib.readPrincipal seen entry with
    | none =>
      rw [hread] at h
      cases h
    | some result =>
      rw [hread] at h
      obtain ⟨rest, hrest, h⟩ := Except.bind_eq_ok.mp h
      obtain rfl := Except.ok.inj h
      exact List.forall_mem_cons.mpr ⟨accepts_of_readPrincipal hread, ih hrest⟩

theorem identities_of_numberPrincipals {parsed : List (Identity × List Identity)} {position : ℕ}
    (h : numberPrincipals position parsed = .ok principals) :
    ∀ principal ∈ principals, ∃ entry ∈ parsed, principal.identities = entry.2 := by
  induction parsed generalizing position principals with
  | nil =>
    obtain rfl := Except.ok.inj h
    simp
  | cons entry entries ih =>
    rw [numberPrincipals] at h
    cases hrestore : Principal.restore ⟨position⟩ entry.1 entry.2 with
    | error _ =>
      rw [hrestore] at h
      cases h
    | ok principal =>
      rw [hrestore] at h
      obtain ⟨rest, hrest, h⟩ := Except.bind_eq_ok.mp h
      obtain rfl := Except.ok.inj h
      have hidentities : principal.identities = entry.2 := by
        unfold Principal.restore at hrestore
        split_ifs at hrestore
        cases hrestore
        rfl
      refine List.forall_mem_cons.mpr ⟨⟨entry, List.mem_cons_self, hidentities⟩, ?_⟩
      intro other hother
      obtain ⟨source, hsource, heq⟩ := ih hrest other hother
      exact ⟨source, List.mem_cons_of_mem _ hsource, heq⟩

theorem accepts_of_declaredArchivePrincipals {archive : Archive}
    (h : lib.declaredArchivePrincipals archive = .ok principals) :
    ∀ principal ∈ principals, ∀ identity ∈ principal.identities, lib.Accepts identity := by
  unfold declaredArchivePrincipals at h
  split at h
  · cases h
  · obtain ⟨parsed, hparsed, h⟩ := Except.bind_eq_ok.mp h
    intro principal hprincipal
    obtain ⟨entry, hentry, heq⟩ := identities_of_numberPrincipals h principal hprincipal
    rw [heq]
    exact accepts_of_readPrincipals hparsed entry (Table.mem_orderBy.mp hentry)

/-! ## Entries that were read -/

theorem archiveReview_pos {owner : PrincipalRef} {known : Bool} {reviewedRevision : Option ℤ}
    {reviewedAt : Option ℤ} {issuer subject : Option String} {review : NoteReviewTracking}
    (h : lib.archiveReview principals owner known reviewedRevision reviewedAt issuer subject =
      some review) : ∀ record ∈ review.lastReview, 0 < record.revision := by
  unfold archiveReview at h
  split at h
  · obtain rfl := Option.some.inj h
    simp [NoteReviewTracking.lastReview]
  · obtain rfl := Option.some.inj h
    simp [NoteReviewTracking.pending, NoteReviewTracking.lastReview]
  · obtain ⟨reviewer, -, h⟩ := Option.bind_eq_some_iff.mp h
    split_ifs at h
    obtain ⟨revision, hrevision, h⟩ := Option.bind_eq_some_iff.mp h
    obtain rfl := Option.some.inj h
    rintro record hrecord
    obtain rfl := Option.some.inj hrecord
    exact readRevision_pos hrevision
  · cases h

theorem readNote_sound (huuids : lib.ReadsUuids) {entry : ArchiveNote} {note : Note}
    (h : lib.readNote principals entry = some note) : IsVersion7 note.noteId.entityId ∧
      0 < note.revision ∧ ∀ review ∈ note.review.lastReview, 0 < review.revision := by
  obtain ⟨normalized, -, h⟩ := Option.bind_eq_some_iff.mp h
  obtain ⟨noteId, hid, h⟩ := Option.bind_eq_some_iff.mp h
  obtain ⟨creator, -, h⟩ := Option.bind_eq_some_iff.mp h
  obtain ⟨revision, hrevision, h⟩ := Option.bind_eq_some_iff.mp h
  obtain ⟨createdVia, review, hreview, hrestore⟩ : ∃ createdVia review,
      (∀ record ∈ review.lastReview, 0 < record.revision) ∧ Note.restore
        { noteId := ⟨noteId⟩
          owner := creator
          draft := ⟨normalized.draft.title, entry.source, normalized.draft.tags⟩
          createdAt := entry.createdAt
          updatedAt := entry.updatedAt
          revision
          deletedAt := entry.deletedAt
          createdVia
          review } = some note := by
    cases hprovenance : entry.provenance with
    | none =>
      rw [hprovenance] at h
      exact ⟨_, _, by simp [NoteReviewTracking.lastReview], h⟩
    | some provenance =>
      rw [hprovenance] at h
      obtain ⟨_, hfound, h⟩ := Option.bind_eq_some_iff.mp h
      obtain ⟨review, hreview, rfl⟩ := Option.map_eq_some_iff.mp hfound
      exact ⟨_, review, archiveReview_pos hreview, h⟩
  have hrestored := Note.restore_eq_some.mp hrestore
  have hnoteId : note.noteId = ⟨noteId⟩ := (congrArg NoteRestore.noteId hrestored :)
  have hcount : note.revision = revision := (congrArg NoteRestore.revision hrestored :)
  have htracking : note.review = review := (congrArg NoteRestore.review hrestored :)
  rw [hnoteId, hcount, htracking]
  exact ⟨huuids.isVersion7 hid, readRevision_pos hrevision, hreview⟩

theorem readNoteRevision_sound {notes : List Note} {entry : ArchiveNoteRevision}
    {value : NoteRevisionSnapshot} (h : lib.readNoteRevision principals notes entry = some value) :
    lib.parseEntityId entry.noteId = some value.note.noteId.entityId ∧
      readRevision entry.revision = some value.note.revision ∧
      value.note.draft.source = entry.source ∧
      (∃ current ∈ notes, value.note.owner = current.owner) ∧
      ∀ review ∈ value.note.review.lastReview, 0 < review.revision := by
  obtain ⟨noteId, hid, h⟩ := Option.bind_eq_some_iff.mp h
  obtain ⟨current, hcurrent, h⟩ := Option.bind_eq_some_iff.mp h
  obtain ⟨normalized, -, h⟩ := Option.bind_eq_some_iff.mp h
  obtain ⟨review, hreview, h⟩ := Option.bind_eq_some_iff.mp h
  obtain ⟨revision, hrevision, h⟩ := Option.bind_eq_some_iff.mp h
  obtain ⟨historical, hrestore, h⟩ := Option.bind_eq_some_iff.mp h
  obtain ⟨changedBy, -, h⟩ := Option.bind_eq_some_iff.mp h
  obtain rfl := Option.some.inj h
  have hrestored := Note.restore_eq_some.mp hrestore
  have hnoteId : historical.noteId = ⟨noteId⟩ := (congrArg NoteRestore.noteId hrestored :)
  have hdraft : historical.draft.source = entry.source :=
    (congrArg (fun restore => restore.draft.source) hrestored :)
  have hcount : historical.revision = revision := (congrArg NoteRestore.revision hrestored :)
  have howner : historical.owner = current.owner := (congrArg NoteRestore.owner hrestored :)
  have htracking : historical.review = review := (congrArg NoteRestore.review hrestored :)
  refine ⟨?_, ?_, hdraft, ⟨current, List.mem_of_find?_eq_some hcurrent, howner⟩, ?_⟩
  · rw [hnoteId]
    exact hid
  · rw [hcount]
    exact hrevision
  · show ∀ review ∈ historical.review.lastReview, _
    rw [htracking]
    exact archiveReview_pos hreview

theorem Rereads.eq_of_parseEntityId (hlib : lib.Rereads) {entityId entityId' : ℕ}
    (hshort : entityId < 2 ^ 128)
    (h : lib.parseEntityId (entityIdText entityId) = some entityId') : entityId' = entityId := by
  obtain ⟨hparse, -⟩ := Option.filter_eq_some_iff.mp h
  rw [hlib.uuid entityId hshort] at hparse
  exact (Option.some.inj hparse).symm

/-- The images of a revision are those its source names. -/
theorem readAttachmentReferences_sound (hlib : lib.Rereads) (huuids : lib.ReadsUuids)
    {entry : ArchiveNoteRevision} {references : List NoteRevisionAttachment} {noteId : NoteId}
    {revision : ℕ} (h : lib.readAttachmentReferences entry = some references)
    (hid : lib.parseEntityId entry.noteId = some noteId.entityId)
    (hrevision : readRevision entry.revision = some revision) :
    ∃ validated, lib.validateSource entry.source = some validated ∧
      ∀ reference, reference ∈ references ↔ ∃ query ∈ validated.attachmentQueries,
        reference = ⟨noteId, revision, query.attachmentId⟩ := by
  obtain ⟨noteId', hid', h⟩ := Option.bind_eq_some_iff.mp h
  obtain rfl : noteId.entityId = noteId' := Option.some.inj (hid.symm.trans hid')
  obtain ⟨revision', hrevision', h⟩ := Option.bind_eq_some_iff.mp h
  obtain rfl : revision = revision' := Option.some.inj (hrevision.symm.trans hrevision')
  obtain ⟨validated, hvalidated, h⟩ := Option.bind_eq_some_iff.mp h
  dsimp only at h
  split_ifs at h with hbad
  have hdeclared := not_not.mp (not_or.mp hbad).2
  have hsorted : (orderBy id (validated.attachmentQueries.map fun query =>
      entityIdText query.attachmentId.entityId)).Pairwise (· ≤ ·) := Table.pairwise_orderBy
  have htexts : ∀ text, text ∈ entry.attachmentIds ↔
      ∃ query ∈ validated.attachmentQueries, entityIdText query.attachmentId.entityId = text := by
    intro text
    rw [← Table.mem_orderBy (g := id), hdeclared, hsorted.destutter_eq_dedup, List.mem_dedup,
      Table.mem_orderBy, List.mem_map]
  have hread := forall₂_of_mapM_eq_some h
  refine ⟨validated, hvalidated, fun reference => ⟨fun hmem => ?_, ?_⟩⟩
  · obtain ⟨text, htext, hparsed⟩ := hread.exists_left hmem
    obtain ⟨attachmentId, hparse, rfl⟩ := Option.map_eq_some_iff.mp hparsed
    obtain ⟨query, hquery, rfl⟩ := (htexts text).mp htext
    obtain rfl := hlib.eq_of_parseEntityId (huuids.named _ _ hvalidated query hquery) hparse
    exact ⟨query, hquery, rfl⟩
  · rintro ⟨query, hquery, rfl⟩
    obtain ⟨reference, hmem, hparsed⟩ :=
      hread.exists_right ((htexts _).mpr ⟨query, hquery, rfl⟩)
    obtain ⟨attachmentId, hparse, rfl⟩ := Option.map_eq_some_iff.mp hparsed
    obtain rfl := hlib.eq_of_parseEntityId (huuids.named _ _ hvalidated query hquery) hparse
    exact hmem

/-- The images of every revision that was read are those its source names. -/
theorem images_of_history (hlib : lib.Rereads) (huuids : lib.ReadsUuids)
    {entries : List ArchiveNoteRevision} {notes : List Note} {revisions : List NoteRevisionSnapshot}
    {references : List (List NoteRevisionAttachment)}
    (hrevisions : List.Forall₂
      (fun record entry => lib.readNoteRevision principals notes record = some entry) entries
        revisions)
    (hreferences : List.Forall₂
      (fun record shown => lib.readAttachmentReferences record = some shown) entries references)
    (hkeys : (revisions.map fun entry => (entry.note.noteId, entry.note.revision)).Nodup)
    {entry : NoteRevisionSnapshot} (hentry : entry ∈ revisions) :
    ∃ validated, lib.validateSource entry.note.draft.source = some validated ∧
      ∀ attachmentId,
        (∃ query ∈ validated.attachmentQueries, query.attachmentId = attachmentId) ↔
          ⟨entry.note.noteId, entry.note.revision, attachmentId⟩ ∈ references.flatten := by
  obtain ⟨record, hrecord, hvalue⟩ := hrevisions.exists_left hentry
  obtain ⟨hid, hrevision, hsource, -⟩ := readNoteRevision_sound hvalue
  obtain ⟨shown, hshown, hmembers⟩ := hreferences.exists_right hrecord
  obtain ⟨validated, hvalidated, hnamed⟩ :=
    readAttachmentReferences_sound hlib huuids hmembers hid hrevision
  refine ⟨validated, hsource ▸ hvalidated, fun attachmentId => ⟨?_, fun hmem => ?_⟩⟩
  · rintro ⟨query, hquery, rfl⟩
    exact List.mem_flatten.mpr ⟨shown, hshown, (hnamed _).mpr ⟨query, hquery, rfl⟩⟩
  · -- The reference comes from the record of this revision, since there is no other one.
    obtain ⟨shown', hshown', hmem⟩ := List.mem_flatten.mp hmem
    obtain ⟨record', hrecord', hmembers'⟩ := hreferences.exists_left hshown'
    obtain ⟨entry', hentry', hvalue'⟩ := hrevisions.exists_right hrecord'
    obtain ⟨hid', hrevision', hsource', -⟩ := readNoteRevision_sound hvalue'
    obtain ⟨validated', hvalidated', hnamed'⟩ :=
      readAttachmentReferences_sound hlib huuids hmembers' hid' hrevision'
    obtain ⟨query, hquery, heq⟩ := (hnamed' _).mp hmem
    obtain ⟨hnote, hcount, rfl⟩ := NoteRevisionAttachment.mk.inj heq
    have hsame : entry = entry' :=
      List.inj_on_of_nodup_map hkeys hentry hentry' (Prod.ext hnote hcount)
    rw [← hsource', ← hsame, hsource, hvalidated] at hvalidated'
    obtain rfl := Option.some.inj hvalidated'
    exact ⟨query, hquery, rfl⟩

section Libraries

variable {attachmentLib : AttachmentLibrary} {json : JsonCodec}

theorem readAttachment_sound (huuids : lib.ReadsUuids) {entry : ArchiveAttachment}
    {attachment : StoredAttachment attachmentLib}
    (h : lib.readAttachment attachmentLib principals entry = some attachment) :
    IsVersion7 attachment.metadata.attachmentId.entityId ∧
      attachment.metadata.sha256 < 2 ^ 256 := by
  obtain ⟨attachmentId, hid, h⟩ := Option.bind_eq_some_iff.mp h
  obtain ⟨noteId, -, h⟩ := Option.bind_eq_some_iff.mp h
  obtain ⟨createdBy, -, h⟩ := Option.bind_eq_some_iff.mp h
  obtain ⟨bytes, -, h⟩ := Option.bind_eq_some_iff.mp h
  obtain ⟨sha256, hsha256, h⟩ := Option.bind_eq_some_iff.mp h
  obtain ⟨metadata, hmetadata, h⟩ := Option.bind_eq_some_iff.mp h
  have hnew := Except.toOption_eq_some.mp hmetadata
  have hstored := Except.toOption_eq_some.mp h
  have hsame : attachment.metadata = metadata :=
    Except.ok.inj ((StoredAttachment.metadata_of_new hstored).symm.trans
      (AttachmentMetadata.new_idem hnew))
  obtain ⟨_, hvalues⟩ := AttachmentMetadata.eq_of_new hnew
  rw [hsame, hvalues]
  exact ⟨huuids.isVersion7 hid, decodeSha256_lt hsha256⟩

theorem readBibliographyItem_sound (huuids : lib.ReadsUuids) {entry : ArchiveBibliographyItem}
    {item : BibliographyItem json}
    (h : lib.readBibliographyItem json principals entry = some item) :
    IsVersion7 item.itemId.entityId := by
  obtain ⟨itemId, hid, h⟩ := Option.bind_eq_some_iff.mp h
  obtain ⟨owner, -, h⟩ := Option.bind_eq_some_iff.mp h
  split_ifs at h with hpositive
  have hrestore := Except.toOption_eq_some.mp h
  unfold BibliographyItem.restore at hrestore
  split_ifs at hrestore with htimes
  obtain ⟨csl, -, hrestore⟩ := Except.bind_eq_ok.mp hrestore
  obtain rfl := Except.ok.inj hrestore
  exact huuids.isVersion7 hid

theorem readBibliographyImportSource_sound (huuids : lib.ReadsUuids)
    {entry : ArchiveBibliographyImportSource} {source : BibliographyImportSource}
    (h : lib.readBibliographyImportSource principals entry = some source) :
    IsVersion7 source.sourceId.entityId := by
  obtain ⟨sourceId, hid, h⟩ := Option.bind_eq_some_iff.mp h
  obtain ⟨owner, -, h⟩ := Option.bind_eq_some_iff.mp h
  split_ifs at h with hpositive
  unfold BibliographyImportSource.restore at h
  split_ifs at h
  obtain rfl := Option.some.inj h
  exact huuids.isVersion7 hid

theorem readBibliographyImportLink_sound {entry : ArchiveBibliographyImportLink}
    {link : BibliographyImportLink} (h : lib.readBibliographyImportLink entry = some link) :
    link.importedDigest < 2 ^ 256 ∧ 0 < link.importedItemRevision := by
  obtain ⟨sourceId, -, h⟩ := Option.bind_eq_some_iff.mp h
  obtain ⟨itemId, -, h⟩ := Option.bind_eq_some_iff.mp h
  obtain ⟨digest, hdigest, h⟩ := Option.bind_eq_some_iff.mp h
  obtain ⟨revision, hrevision, h⟩ := Option.bind_eq_some_iff.mp h
  unfold BibliographyImportLink.new at h
  split_ifs at h
  obtain rfl := Option.some.inj h
  exact ⟨decodeSha256_lt hdigest, readRevision_pos hrevision⟩

end Libraries

/-! ## The whole archive -/

section Contents

variable {attachmentLib : AttachmentLibrary} {json : JsonCodec}
  {s : LogicalSnapshot attachmentLib json} {archive : Archive}

/-- A snapshot that was read can be written. -/
theorem archivable_of_contents (hlib : lib.Rereads) (huuids : lib.ReadsUuids)
    (hitems : ∀ item ∈ s.bibliographyItems, item.Rereads)
    (hhistory : archive.noteRevisions.isSome)
    (h : lib.validateArchiveContents attachmentLib json archive = .ok s) :
    s.parts.Fits ∧ lib.Archivable s := by
  obtain ⟨entries, hentries⟩ := Option.isSome_iff_exists.mp hhistory
  unfold validateArchiveContents at h
  rw [hentries] at h
  obtain ⟨principals, hprincipals, h⟩ := Except.bind_eq_ok.mp h
  obtain ⟨notes, hnotes, h⟩ := Except.bind_eq_ok.mp h
  obtain ⟨_, hhistories, h⟩ := Except.bind_eq_ok.mp h
  obtain ⟨revisions, hrevisions, rfl⟩ := Except.map_eq_ok.mp hhistories
  obtain ⟨noteAcl, -, h⟩ := Except.bind_eq_ok.mp h
  obtain ⟨items, hread, h⟩ := Except.bind_eq_ok.mp h
  obtain ⟨sources, hsources, h⟩ := Except.bind_eq_ok.mp h
  obtain ⟨links, hlinks, h⟩ := Except.bind_eq_ok.mp h
  obtain ⟨settings, -, h⟩ := Except.bind_eq_ok.mp h
  obtain ⟨attachments, hattachments, h⟩ := Except.bind_eq_ok.mp h
  obtain ⟨references, hreferences, h⟩ := Except.bind_eq_ok.mp h
  have hsnapshot : (SnapshotParts.mk notes noteAcl revisions items sources links settings
      principals attachments references.flatten).snapshot = .ok s := Except.mapError_eq_ok.mp h
  obtain ⟨hfits, rfl⟩ := SnapshotParts.snapshot_eq_ok_iff.mp hsnapshot
  rw [readEach_eq_ok] at hnotes hrevisions hread hsources hlinks hattachments hreferences
  rw [Option.getD_some] at hreferences
  have himages : ∀ attachment ∈ attachments,
      IsVersion7 attachment.metadata.attachmentId.entityId ∧
        attachment.metadata.sha256 < 2 ^ 256 := by
    intro attachment hmem
    obtain ⟨record, -, hrecord⟩ := hattachments.exists_left hmem
    exact readAttachment_sound huuids hrecord
  have himports : ∀ link ∈ links,
      link.importedDigest < 2 ^ 256 ∧ 0 < link.importedItemRevision := by
    intro link hlink
    obtain ⟨record, -, hrecord⟩ := hlinks.exists_left hlink
    exact readBibliographyImportLink_sound hrecord
  refine ⟨hfits.rearrange (SnapshotParts.rearranges_logicalSnapshot _),
    { noteIds := ?noteIds
      attachmentIds := fun attachment hmem => (himages attachment (Table.mem_orderBy.mp hmem)).1
      itemIds := ?itemIds
      sourceIds := ?sourceIds
      imageDigests := fun attachment hmem => (himages attachment (Table.mem_orderBy.mp hmem)).2
      importDigests := fun link hlink => (himports link hlink).1
      identities := accepts_of_declaredArchivePrincipals hprincipals
      items := hitems
      sources := ?sources
      count := ⟨?notes, ?noteRevisions, fun link hlink => (himports link hlink).2⟩
      owners := ?owners }⟩
  case noteIds =>
    intro note hnote
    obtain ⟨record, -, hrecord⟩ := hnotes.exists_left hnote
    exact (readNote_sound huuids hrecord).1
  case itemIds =>
    intro item hitem
    obtain ⟨record, -, hrecord⟩ := hread.exists_left hitem
    exact readBibliographyItem_sound huuids hrecord
  case sourceIds =>
    intro source hsource
    obtain ⟨record, -, hrecord⟩ := hsources.exists_left hsource
    exact readBibliographyImportSource_sound huuids hrecord
  case sources =>
    intro entry hentry
    obtain ⟨validated, hvalidated, hshown⟩ := images_of_history hlib huuids hrevisions hreferences
      hfits.revisions.keys (Table.mem_orderBy.mp hentry)
    exact ⟨validated, hvalidated, fun attachmentId =>
      (hshown attachmentId).trans Table.mem_orderBy.symm⟩
  case notes =>
    intro note hnote
    obtain ⟨record, -, hrecord⟩ := hnotes.exists_left hnote
    exact (readNote_sound huuids hrecord).2
  case noteRevisions =>
    intro entry hentry
    obtain ⟨record, -, hvalue⟩ := hrevisions.exists_left (Table.mem_orderBy.mp hentry)
    obtain ⟨-, hrevision, -, -, hreview⟩ := readNoteRevision_sound hvalue
    exact ⟨readRevision_pos hrevision, hreview⟩
  case owners =>
    intro entry hentry
    obtain ⟨record, -, hvalue⟩ := hrevisions.exists_left (Table.mem_orderBy.mp hentry)
    obtain ⟨-, -, -, ⟨current, hcurrent, howner⟩, -⟩ := readNoteRevision_sound hvalue
    exact howner ▸ (hfits.references.notes current hcurrent).1

end Contents

end ArchiveLibrary

/-! ## The migration -/

section Migration

variable (service : ServiceLibrary) (lib : ArchiveLibrary) (queries : NoteQueries)
  (codec : ArchiveCodec)

/-- `migrate_previous_archive`, whose panic ends the command. -/
def migratedArchive (previous : Archive) : Except MaintenanceFailure Archive := do
  match ← (lib.migratePreviousArchive service.attachments service.imports.json previous).mapError
    .migration with
  | none => .error .unreadableDocument
  | some migrated => return migrated

/-- `migrate_archive`, from the file that is read to the archive that is written. -/
def migrateArchive (input : List UInt8) : Except MaintenanceFailure Archive :=
  match codec.decode input with
  | none => .error .unreadableArchive
  | some previous => do
    let migrated ← migratedArchive service lib previous
    let validated ← validatedArchive service lib queries migrated
    verifyArchive service lib validated
    let written ← readValidatedArchive service lib queries codec (codec.encode validated.archive)
    if written.archive ≠ validated.archive then .error .writtenArchiveDiffers
    else return written.archive

/-- The texts that are stored of a snapshot are read back, and its sources can be analyzed. -/
structure StoresTexts (s : LogicalSnapshot service.attachments service.imports.json) : Prop where
  items : ∀ item ∈ s.bibliographyItems, item.Rereads
  macros : ∀ entry ∈ s.mathMacroSettings, service.macros.Rereads entry.settings.macros
  analyzed : ∀ note ∈ s.notes, queries.Analyzes note

variable {service} {lib} {queries} {codec} {input : List UInt8} {previous : Archive}
  {found : Option Archive}

/-- A migration whose archive passes is stopped by its file only. -/
theorem migrateArchive_eq_ok_iff {migrated : Archive} {plan}
    (hread : codec.decode input = some previous)
    (hmigrated : lib.migratePreviousArchive service.attachments service.imports.json previous =
      .ok (some migrated))
    (hvalidated : validatedArchive service lib queries migrated = .ok ⟨migrated, plan⟩)
    (hverify : verifyArchive service lib ⟨migrated, plan⟩ = .ok ()) :
    migrateArchive service lib queries codec input = .ok migrated ↔ codec.Rereads migrated := by
  have hfound : migratedArchive service lib previous = .ok migrated :=
    Except.bind_eq_ok.mpr ⟨_, Except.mapError_eq_ok.mpr hmigrated, rfl⟩
  unfold migrateArchive
  rw [hread]
  constructor
  · intro h
    obtain ⟨migrated', hfound', h⟩ := Except.bind_eq_ok.mp h
    obtain rfl := Except.ok.inj (hfound.symm.trans hfound')
    obtain ⟨validated, hvalidated', h⟩ := Except.bind_eq_ok.mp h
    obtain rfl := Except.ok.inj (hvalidated.symm.trans hvalidated')
    obtain ⟨_, -, h⟩ := Except.bind_eq_ok.mp h
    obtain ⟨written, hwritten, h⟩ := Except.bind_eq_ok.mp h
    split_ifs at h with hsame
    exact (decode_of_readValidatedArchive hwritten).trans (congrArg some (not_not.mp hsame))
  · intro h
    have hwritten : readValidatedArchive service lib queries codec (codec.encode migrated) =
        .ok ⟨migrated, plan⟩ := (readValidatedArchive_eq h).trans hvalidated
    exact Except.bind_eq_ok.mpr ⟨_, hfound, Except.bind_eq_ok.mpr ⟨_, hvalidated,
      Except.bind_eq_ok.mpr ⟨(), hverify, Except.bind_eq_ok.mpr ⟨_, hwritten,
        if_neg (not_not.mpr rfl)⟩⟩⟩⟩

/-- Once an archive was migrated, neither its validation nor its verification stops the command,
only a file that is not read as what was written to it. -/
theorem migration_verified (hread : codec.decode input = some previous) (hlib : lib.Rereads)
    (huuids : lib.ReadsUuids)
    (hstores : ∀ s, lib.validateArchiveContents service.attachments service.imports.json previous =
      .ok s → StoresTexts service queries s)
    (h : lib.migratePreviousArchive service.attachments service.imports.json previous =
      .ok found) :
    ∃ migrated, found = some migrated ∧
      (migrateArchive service lib queries codec input = .ok migrated ↔
        codec.Rereads migrated) := by
  have hmigrated := h
  unfold ArchiveLibrary.migratePreviousArchive at h
  split_ifs at h with hcontract habsent
  split at h
  · cases h
  · obtain ⟨s, hs, hfound⟩ := Except.bind_eq_ok.mp h
    have hcontents := Except.mapError_eq_ok.mp hs
    have hstores := hstores s hcontents
    have hhistory : previous.noteRevisions.isSome = true := by
      rw [Option.isSome_iff_ne_none]
      intro hnone
      exact habsent (Or.inr (Or.inl (by simp [hnone])))
    obtain ⟨hfits, harchivable⟩ :=
      ArchiveLibrary.archivable_of_contents hlib huuids hstores.items hhistory hcontents
    have hreadable : s.parts.Readable service :=
      { harchivable.count with
        owners := harchivable.owners
        items := hstores.items
        macros := hstores.macros }
    obtain ⟨archive, harchive⟩ := harchivable.exists_archive
    obtain ⟨plan, hvalidated, hverify⟩ :=
      exists_validatedArchive hlib hfits harchivable hreadable hstores.analyzed harchive
    obtain rfl : some archive = found := harchive.symm.trans (Except.ok.inj hfound)
    exact ⟨archive, rfl, migrateArchive_eq_ok_iff hread hmigrated hvalidated hverify⟩

end Migration

/-- An archive that only an older analysis has gone through is migrated to the one it would be
now. -/
theorem migratePreviousArchive_createArchive {lib : ArchiveLibrary}
    {attachmentLib : AttachmentLibrary} {json : JsonCodec}
    {s : LogicalSnapshot attachmentLib json} (hlib : lib.Rereads) (hfits : s.parts.Fits)
    (h : lib.Archivable s) {archive : Archive} (harchive : createArchive lib s = some archive) :
    lib.migratePreviousArchive attachmentLib json
      { archive with adocweavePackageVersion := "0.47.0" } = .ok (some archive) := by
  have hcontents := ArchiveLibrary.validateArchiveContents_createArchive hlib hfits h harchive
  have hwritten := (ArchiveLibrary.createArchive_readParts hfits h).trans harchive
  obtain ⟨hformat, hprofile, hpresent, hprovenance⟩ : archive.format = archiveFormat ∧
      archive.noteProfileVersion = archiveNoteProfileVersion ∧
      ¬(archive.principals.isNone ∨ archive.noteRevisions.isNone ∨ archive.attachments.isNone) ∧
      ∀ note ∈ archive.notes, note.provenance.isNone = false := by
    rw [createArchive_eq h.exists_record] at harchive
    obtain rfl := Option.some.inj harchive
    refine ⟨rfl, rfl, ?_, ?_⟩
    · simp [Archive.canonical]
    · simp [Archive.canonical, Note.toArchive]
  have hfind : archive.notes.findIdx? (fun note => note.provenance.isNone) = none :=
    List.findIdx?_eq_none_iff.mpr hprovenance
  unfold ArchiveLibrary.migratePreviousArchive
  rw [if_neg (not_not.mpr ⟨hformat, rfl, hprofile⟩), if_neg hpresent]
  dsimp only
  rw [hfind]
  exact Except.bind_eq_ok.mpr ⟨_, Except.mapError_eq_ok.mpr hcontents,
    congrArg Except.ok hwritten⟩

section Example

open Database ArchiveLibrary

theorem readsUuids_workspaceArchive : workspaceArchive.ReadsUuids where
  parsed text entityId h := by
    unfold workspaceArchive at h
    exact (of_decide_eq_true (Option.filter_eq_some_iff.mp h).2).1
  named source validated h query hquery := by
    obtain rfl : _ = validated := Option.some.inj h
    dsimp only at hquery
    split_ifs at hquery
    · exact absurd hquery List.not_mem_nil
    · obtain rfl := List.mem_singleton.mp hquery
      decide
    · exact absurd hquery List.not_mem_nil

/-- The archive of the workspace is migrated from the version before. -/
theorem migration_verified_workspace : ∃ s archive,
    workspace.exportArchiveSnapshot workspaceService = .ok s ∧
    createArchive workspaceArchive s = some archive ∧
    ∃ previous, previous = { archive with adocweavePackageVersion := "0.47.0" } ∧
      migrateArchive workspaceService workspaceArchive workspaceQueries
        (sampleArchiveCodec [previous, archive])
          ((sampleArchiveCodec [previous, archive]).encode previous) = .ok archive := by
  obtain ⟨s, hs, hunderstands⟩ := exists_workspaceSnapshot
  obtain ⟨rows, hrows, -, hitems⟩ := exists_workspaceRows
  have hsound := serviceSound_of_run run_fillWorkspace
  have hexported := hsound.exported hrows
  obtain ⟨rows', hrows', rfl⟩ := hsound.exportArchiveSnapshot_eq_ok.mp hs
  obtain rfl := Except.ok.inj (hrows.symm.trans hrows')
  have hfits := (hexported.fits hsound).rearrange rows.rearranges_logicalSnapshot
  have hread := (hexported.readable hsound hitems).logicalSnapshot
  have harchivable : workspaceArchive.Archivable rows.logicalSnapshot :=
    ⟨hunderstands, hread.toCountFromOne, hread.owners⟩
  obtain ⟨archive, harchive⟩ := harchivable.exists_archive
  have hcontents := validateArchiveContents_createArchive rereads_workspaceArchive hfits
    harchivable harchive
  have hstores : ∀ s, workspaceArchive.validateArchiveContents workspaceService.attachments
      workspaceService.imports.json { archive with adocweavePackageVersion := "0.47.0" } =
        .ok s → StoresTexts workspaceService workspaceQueries s := by
    intro s hs
    obtain rfl := Except.ok.inj (hcontents.symm.trans hs)
    have hread : (workspaceArchive.readParts rows.logicalSnapshot).logicalSnapshot.parts.Readable
        workspaceService := hread.restate.rearrange (rearranges_readParts hfits)
    exact ⟨hread.items, hread.macros, fun note _ => analyzes_workspaceQueries note⟩
  have hmigrated := migratePreviousArchive_createArchive rereads_workspaceArchive hfits
    harchivable harchive
  have hinput : (sampleArchiveCodec [{ archive with adocweavePackageVersion := "0.47.0" },
      archive]).Rereads { archive with adocweavePackageVersion := "0.47.0" } :=
    rereads_sampleArchiveCodec (by simp) List.mem_cons_self
  obtain ⟨migrated, hfound, hverified⟩ := migration_verified hinput rereads_workspaceArchive
    readsUuids_workspaceArchive hstores hmigrated
  obtain rfl := Option.some.inj hfound
  exact ⟨_, archive, hs, harchive, _, rfl,
    hverified.mpr (rereads_sampleArchiveCodec (by simp) (by simp))⟩

end Example

end Marginalis
