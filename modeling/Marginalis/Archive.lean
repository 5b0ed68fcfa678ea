import Marginalis.DocumentExport

/-!
# The order of an archive

An archive holds everything that is stored, as lists of records. The order of the records is
not part of what it says, so `Archive.canonical` puts them in the order of their keys, and the
aliases of a principal and the images of a revision in their own order. `canonical_rearranged` :
archives that differ in these orders alone become equal, and a second time changes nothing. The
macros of a setting are content in the order their owner gave them, and stay as they are.
-/

namespace Marginalis

open Table (orderBy)

/-! ## Records -/

structure ArchiveIdentity where
  issuer : String
  subject : String
  deriving DecidableEq

structure ArchivePrincipal where
  primaryIssuer : String
  primarySubject : String
  aliases : List ArchiveIdentity
  deriving DecidableEq

structure ArchiveNote where
  noteId : String
  creatorIssuer : String
  creatorSubject : String
  source : String
  createdAt : ℤ
  updatedAt : ℤ
  revision : ℤ
  deletedAt : Option ℤ
  provenance : Option ArchiveNoteProvenance
  deriving DecidableEq

structure ArchiveNoteRevision where
  noteId : String
  revision : ℤ
  changedAt : ℤ
  changedByIssuer : String
  changedBySubject : String
  kind : NoteRevisionKind
  source : String
  deletedAt : Option ℤ
  reviewTrackingKnown : Bool
  reviewedRevision : Option ℤ
  reviewedAt : Option ℤ
  reviewerIssuer : Option String
  reviewerSubject : Option String
  attachmentIds : List String
  deriving DecidableEq

structure ArchiveAttachment where
  attachmentId : String
  noteId : String
  fileName : String
  mediaType : AttachmentMediaType
  byteLength : ℕ
  sha256 : String
  contentBase64 : String
  createdAt : ℤ
  createdByIssuer : String
  createdBySubject : String
  deriving DecidableEq

structure ArchiveAclEntry where
  noteId : String
  issuer : String
  subject : String
  permission : NotePermission
  deriving DecidableEq

structure ArchiveBibliographyItem where
  itemId : String
  ownerIssuer : String
  ownerSubject : String
  citationKey : String
  cslJson : Json
  createdAt : ℤ
  updatedAt : ℤ
  revision : ℤ

structure ArchiveBibliographyImportSource where
  sourceId : String
  ownerIssuer : String
  ownerSubject : String
  displayName : String
  revision : ℤ
  createdAt : ℤ
  lastImportedAt : ℤ
  deriving DecidableEq

structure ArchiveBibliographyImportLink where
  sourceId : String
  externalItemId : String
  itemId : String
  importedDigestSha256 : String
  importedItemRevision : ℤ
  deriving DecidableEq

structure ArchiveMathMacro where
  name : String
  replacement : String
  argumentCount : UInt8
  deriving DecidableEq

structure ArchiveMathMacroSettings where
  ownerIssuer : String
  ownerSubject : String
  macros : List ArchiveMathMacro
  revision : ℤ
  deriving DecidableEq

/-- Principals, revisions and images are absent in the archives of older versions. -/
structure Archive where
  format : String
  adocweavePackageVersion : String
  noteProfileVersion : ℕ
  principals : Option (List ArchivePrincipal)
  notes : List ArchiveNote
  noteRevisions : Option (List ArchiveNoteRevision)
  attachments : Option (List ArchiveAttachment)
  noteAcl : List ArchiveAclEntry
  bibliographyItems : List ArchiveBibliographyItem
  bibliographyImportSources : List ArchiveBibliographyImportSource
  bibliographyImportLinks : List ArchiveBibliographyImportLink
  mathMacroSettings : List ArchiveMathMacroSettings

/-! ## The keys records are sorted by -/

def ArchiveIdentity.key (identity : ArchiveIdentity) : String ×ₗ String :=
  toLex (identity.issuer, identity.subject)

def ArchivePrincipal.key (principal : ArchivePrincipal) : String ×ₗ String :=
  toLex (principal.primaryIssuer, principal.primarySubject)

def ArchiveNoteRevision.key (revision : ArchiveNoteRevision) : String ×ₗ ℤ :=
  toLex (revision.noteId, revision.revision)

def ArchiveAclEntry.key (entry : ArchiveAclEntry) : String ×ₗ String ×ₗ String :=
  toLex (entry.noteId, toLex (entry.issuer, entry.subject))

def ArchiveBibliographyImportLink.key (link : ArchiveBibliographyImportLink) :
    String ×ₗ String :=
  toLex (link.sourceId, link.externalItemId)

def ArchiveMathMacroSettings.key (settings : ArchiveMathMacroSettings) : String ×ₗ String :=
  toLex (settings.ownerIssuer, settings.ownerSubject)

/-- The aliases in order. -/
def ArchivePrincipal.canonical (principal : ArchivePrincipal) : ArchivePrincipal :=
  { principal with aliases := orderBy ArchiveIdentity.key principal.aliases }

/-- The images in order. -/
def ArchiveNoteRevision.canonical (revision : ArchiveNoteRevision) : ArchiveNoteRevision :=
  { revision with attachmentIds := orderBy id revision.attachmentIds }

/-- `Archive::canonical`. -/
def Archive.canonical (archive : Archive) : Archive :=
  { archive with
    principals := archive.principals.map fun principals =>
      orderBy ArchivePrincipal.key (principals.map ArchivePrincipal.canonical)
    notes := orderBy ArchiveNote.noteId archive.notes
    noteRevisions := archive.noteRevisions.map fun revisions =>
      orderBy ArchiveNoteRevision.key (revisions.map ArchiveNoteRevision.canonical)
    attachments := archive.attachments.map (orderBy ArchiveAttachment.attachmentId)
    noteAcl := orderBy ArchiveAclEntry.key archive.noteAcl
    bibliographyItems := orderBy ArchiveBibliographyItem.itemId archive.bibliographyItems
    bibliographyImportSources :=
      orderBy ArchiveBibliographyImportSource.sourceId archive.bibliographyImportSources
    bibliographyImportLinks :=
      orderBy ArchiveBibliographyImportLink.key archive.bibliographyImportLinks
    mathMacroSettings := orderBy ArchiveMathMacroSettings.key archive.mathMacroSettings }

/-! ## The same records in another order -/

/-- The records are changed one by one, and then rearranged. -/
def Rearranged {α : Type*} (same : α → α → Prop) (l l' : List α) : Prop :=
  ∃ m, List.Forall₂ same l m ∧ m.Perm l'

/-- The aliases are in another order. -/
structure ArchivePrincipal.Rearranges (principal principal' : ArchivePrincipal) : Prop where
  primaryIssuer : principal.primaryIssuer = principal'.primaryIssuer
  primarySubject : principal.primarySubject = principal'.primarySubject
  aliases : principal.aliases.Perm principal'.aliases

/-- The images are in another order. -/
structure ArchiveNoteRevision.Rearranges (revision revision' : ArchiveNoteRevision) : Prop where
  record : { revision with attachmentIds := [] } = { revision' with attachmentIds := [] }
  attachmentIds : revision.attachmentIds.Perm revision'.attachmentIds

/-- The records are in another order, and the lists of aliases and images within them. -/
structure Archive.Rearranges (archive archive' : Archive) : Prop where
  format : archive.format = archive'.format
  adocweavePackageVersion :
    archive.adocweavePackageVersion = archive'.adocweavePackageVersion
  noteProfileVersion : archive.noteProfileVersion = archive'.noteProfileVersion
  principals : Option.Rel (Rearranged ArchivePrincipal.Rearranges) archive.principals
    archive'.principals
  notes : archive.notes.Perm archive'.notes
  noteRevisions : Option.Rel (Rearranged ArchiveNoteRevision.Rearranges) archive.noteRevisions
    archive'.noteRevisions
  attachments : Option.Rel List.Perm archive.attachments archive'.attachments
  noteAcl : archive.noteAcl.Perm archive'.noteAcl
  bibliographyItems : archive.bibliographyItems.Perm archive'.bibliographyItems
  bibliographyImportSources :
    archive.bibliographyImportSources.Perm archive'.bibliographyImportSources
  bibliographyImportLinks :
    archive.bibliographyImportLinks.Perm archive'.bibliographyImportLinks
  mathMacroSettings : archive.mathMacroSettings.Perm archive'.mathMacroSettings

/-- No two records of a list have the same key. -/
structure Archive.DistinctKeys (archive : Archive) : Prop where
  principals : ∀ principals ∈ archive.principals, (principals.map ArchivePrincipal.key).Nodup
  notes : (archive.notes.map ArchiveNote.noteId).Nodup
  noteRevisions : ∀ revisions ∈ archive.noteRevisions,
    (revisions.map ArchiveNoteRevision.key).Nodup
  attachments : ∀ attachments ∈ archive.attachments,
    (attachments.map ArchiveAttachment.attachmentId).Nodup
  noteAcl : (archive.noteAcl.map ArchiveAclEntry.key).Nodup
  bibliographyItems : (archive.bibliographyItems.map ArchiveBibliographyItem.itemId).Nodup
  bibliographyImportSources :
    (archive.bibliographyImportSources.map ArchiveBibliographyImportSource.sourceId).Nodup
  bibliographyImportLinks :
    (archive.bibliographyImportLinks.map ArchiveBibliographyImportLink.key).Nodup
  mathMacroSettings : (archive.mathMacroSettings.map ArchiveMathMacroSettings.key).Nodup

/-! ## Sorting records that are sorted within -/

section Sorting

variable {α ω : Type*} [LinearOrder ω] {g : α → ω} {f : α → α} {same : α → α → Prop}
  {l l' : List α}

/-- With distinct keys the order says nothing. -/
theorem orderBy_eq_of_perm (hnodup : (l.map g).Nodup) (h : l.Perm l') :
    orderBy g l = orderBy g l' :=
  Table.orderBy_congr h fun _ ha _ hb => List.inj_on_of_nodup_map hnodup ha hb

theorem map_orderBy (hkey : ∀ a, g (f a) = g a) : (orderBy g l).map f = orderBy g (l.map f) :=
  List.map_insertionSort _ _ f l fun a _ b _ => by rw [hkey, hkey]

theorem orderBy_map_idem (hkey : ∀ a, g (f a) = g a) (hidem : ∀ a, f (f a) = f a) :
    orderBy g ((orderBy g (l.map f)).map f) = orderBy g (l.map f) := by
  have hmap : f ∘ f = f := funext hidem
  rw [map_orderBy hkey, Table.orderBy_orderBy, List.map_map, hmap]

theorem orderBy_map_rearranged (hkey : ∀ a, g (f a) = g a)
    (hsame : ∀ a b, same a b → f a = f b) (hnodup : (l.map g).Nodup) (h : Rearranged same l l') :
    orderBy g (l.map f) = orderBy g (l'.map f) := by
  obtain ⟨m, hforall, hperm⟩ := h
  have hmap : l.map f = m.map f := by
    clear hperm hnodup
    induction hforall with
    | nil => rfl
    | cons hab _ ih => rw [List.map_cons, List.map_cons, hsame _ _ hab, ih]
  have hkeys : ((m.map f).map g).Nodup := by
    have hcomp : g ∘ f = g := funext hkey
    rw [← hmap, List.map_map, hcomp]
    exact hnodup
  rw [hmap]
  exact orderBy_eq_of_perm hkeys (hperm.map f)

/-- Lists that may be absent are treated the same when those that are there are. -/
theorem map_eq_of_rel {β γ : Type*} {related : β → β → Prop} {canonical : β → γ}
    {a b : Option β} (h : Option.Rel related a b)
    (hcanonical : ∀ x ∈ a, ∀ y, related x y → canonical x = canonical y) :
    a.map canonical = b.map canonical := by
  cases h with
  | none => rfl
  | some h => exact congrArg some (hcanonical _ rfl _ h)

end Sorting

theorem ArchivePrincipal.canonical_idem (principal : ArchivePrincipal) :
    principal.canonical.canonical = principal.canonical := by
  simp [ArchivePrincipal.canonical]

theorem ArchivePrincipal.Rearranges.canonical_eq {principal principal' : ArchivePrincipal}
    (h : principal.Rearranges principal') : principal.canonical = principal'.canonical := by
  have haliases : orderBy ArchiveIdentity.key principal.aliases =
      orderBy ArchiveIdentity.key principal'.aliases := by
    refine Table.orderBy_congr h.aliases fun a _ b _ heq => ?_
    have hpair := toLex.injective heq
    cases a
    cases b
    simpa using hpair
  simp only [ArchivePrincipal.canonical, ArchivePrincipal.mk.injEq]
  exact ⟨h.primaryIssuer, h.primarySubject, haliases⟩

theorem ArchiveNoteRevision.canonical_idem (revision : ArchiveNoteRevision) :
    revision.canonical.canonical = revision.canonical := by
  simp [ArchiveNoteRevision.canonical]

theorem ArchiveNoteRevision.Rearranges.canonical_eq {revision revision' : ArchiveNoteRevision}
    (h : revision.Rearranges revision') : revision.canonical = revision'.canonical := by
  have hids : orderBy id revision.attachmentIds = orderBy id revision'.attachmentIds :=
    Table.orderBy_congr h.attachmentIds fun _ _ _ _ heq => heq
  have hrecord := congrArg (fun r : ArchiveNoteRevision =>
    { r with attachmentIds := orderBy id revision.attachmentIds }) h.record
  rw [ArchiveNoteRevision.canonical, ArchiveNoteRevision.canonical, ← hids]
  exact hrecord

/-! ## Archives -/

namespace Archive

variable {archive archive' : Archive}

theorem canonical_canonical (archive : Archive) :
    archive.canonical.canonical = archive.canonical := by
  have hprincipals : ∀ principals : List ArchivePrincipal,
      orderBy ArchivePrincipal.key ((orderBy ArchivePrincipal.key
        (principals.map ArchivePrincipal.canonical)).map ArchivePrincipal.canonical) =
        orderBy ArchivePrincipal.key (principals.map ArchivePrincipal.canonical) := fun _ =>
    orderBy_map_idem (fun _ => rfl) ArchivePrincipal.canonical_idem
  have hrevisions : ∀ revisions : List ArchiveNoteRevision,
      orderBy ArchiveNoteRevision.key ((orderBy ArchiveNoteRevision.key
        (revisions.map ArchiveNoteRevision.canonical)).map ArchiveNoteRevision.canonical) =
        orderBy ArchiveNoteRevision.key (revisions.map ArchiveNoteRevision.canonical) := fun _ =>
    orderBy_map_idem (fun _ => rfl) ArchiveNoteRevision.canonical_idem
  simp only [canonical, Option.map_map, Function.comp_def, hprincipals, hrevisions,
    Table.orderBy_orderBy]

/-- The canonical archive of an archive whose records have distinct keys is canonical, and that
of every archive which has the same records in another order. -/
theorem canonical_rearranged (h : archive.DistinctKeys) :
    archive.canonical.canonical = archive.canonical ∧
      ∀ archive', archive.Rearranges archive' → archive'.canonical = archive.canonical := by
  refine ⟨canonical_canonical archive, fun archive' hrearranges => ?_⟩
  have hprincipals : archive.principals.map (fun principals =>
      orderBy ArchivePrincipal.key (principals.map ArchivePrincipal.canonical)) =
      archive'.principals.map fun principals =>
        orderBy ArchivePrincipal.key (principals.map ArchivePrincipal.canonical) :=
    map_eq_of_rel hrearranges.principals fun principals hmem _ hrel =>
      orderBy_map_rearranged (fun _ => rfl) (fun _ _ => ArchivePrincipal.Rearranges.canonical_eq)
        (h.principals principals hmem) hrel
  have hrevisions : archive.noteRevisions.map (fun revisions =>
      orderBy ArchiveNoteRevision.key (revisions.map ArchiveNoteRevision.canonical)) =
      archive'.noteRevisions.map fun revisions =>
        orderBy ArchiveNoteRevision.key (revisions.map ArchiveNoteRevision.canonical) :=
    map_eq_of_rel hrearranges.noteRevisions fun revisions hmem _ hrel =>
      orderBy_map_rearranged (fun _ => rfl)
        (fun _ _ => ArchiveNoteRevision.Rearranges.canonical_eq)
        (h.noteRevisions revisions hmem) hrel
  have hattachments : archive.attachments.map (orderBy ArchiveAttachment.attachmentId) =
      archive'.attachments.map (orderBy ArchiveAttachment.attachmentId) :=
    map_eq_of_rel hrearranges.attachments fun attachments hmem _ hperm =>
      orderBy_eq_of_perm (h.attachments attachments hmem) hperm
  unfold canonical
  rw [hprincipals, hrevisions, hattachments, hrearranges.format,
    hrearranges.adocweavePackageVersion, hrearranges.noteProfileVersion,
    orderBy_eq_of_perm h.notes hrearranges.notes,
    orderBy_eq_of_perm h.noteAcl hrearranges.noteAcl,
    orderBy_eq_of_perm h.bibliographyItems hrearranges.bibliographyItems,
    orderBy_eq_of_perm h.bibliographyImportSources hrearranges.bibliographyImportSources,
    orderBy_eq_of_perm h.bibliographyImportLinks hrearranges.bibliographyImportLinks,
    orderBy_eq_of_perm h.mathMacroSettings hrearranges.mathMacroSettings]

/-- An archive with one setting of two macros. -/
def sampleMacros (macros : List ArchiveMathMacro) : Archive where
  format := "marginalis-archive-18"
  adocweavePackageVersion := "0.48.0"
  noteProfileVersion := archiveNoteProfileVersion
  principals := some [⟨"https://id.example", "alice", []⟩]
  notes := []
  noteRevisions := some []
  attachments := some []
  noteAcl := []
  bibliographyItems := []
  bibliographyImportSources := []
  bibliographyImportLinks := []
  mathMacroSettings := [⟨"https://id.example", "alice", macros, 1⟩]

theorem distinctKeys_sampleMacros (macros : List ArchiveMathMacro) :
    (sampleMacros macros).DistinctKeys where
  principals := by simp [sampleMacros]
  notes := by simp [sampleMacros]
  noteRevisions := by simp [sampleMacros]
  attachments := by simp [sampleMacros]
  noteAcl := by simp [sampleMacros]
  bibliographyItems := by simp [sampleMacros]
  bibliographyImportSources := by simp [sampleMacros]
  bibliographyImportLinks := by simp [sampleMacros]
  mathMacroSettings := by simp [sampleMacros]

/-- The macros of a setting are not sorted : their order is content. -/
theorem canonical_keeps_macro_order :
    (sampleMacros [⟨"R", "x", 0⟩, ⟨"Z", "y", 0⟩]).DistinctKeys ∧
      [(⟨"R", "x", 0⟩ : ArchiveMathMacro), ⟨"Z", "y", 0⟩].Perm [⟨"Z", "y", 0⟩, ⟨"R", "x", 0⟩] ∧
      (sampleMacros [⟨"R", "x", 0⟩, ⟨"Z", "y", 0⟩]).canonical.mathMacroSettings ≠
        (sampleMacros [⟨"Z", "y", 0⟩, ⟨"R", "x", 0⟩]).canonical.mathMacroSettings :=
  ⟨distinctKeys_sampleMacros _, by decide, by decide⟩

/-- Every list the other way round, within the records too. -/
def reversed (archive : Archive) : Archive :=
  { archive with
    principals := archive.principals.map fun principals =>
      (principals.map fun principal =>
        { principal with aliases := principal.aliases.reverse }).reverse
    notes := archive.notes.reverse
    noteRevisions := archive.noteRevisions.map fun revisions =>
      (revisions.map fun revision =>
        { revision with attachmentIds := revision.attachmentIds.reverse }).reverse
    attachments := archive.attachments.map List.reverse
    noteAcl := archive.noteAcl.reverse
    bibliographyItems := archive.bibliographyItems.reverse
    bibliographyImportSources := archive.bibliographyImportSources.reverse
    bibliographyImportLinks := archive.bibliographyImportLinks.reverse
    mathMacroSettings := archive.mathMacroSettings.reverse }

theorem rearranged_reverse_map {α : Type*} {same : α → α → Prop} {f : α → α}
    (hsame : ∀ a, same a (f a)) (l : List α) : Rearranged same l (l.map f).reverse :=
  ⟨l.map f, List.forall₂_map_right_iff.mpr (List.forall₂_same.mpr fun a _ => hsame a),
    (List.reverse_perm _).symm⟩

theorem rel_map {α : Type*} {related : α → α → Prop} {f : α → α} (h : ∀ a, related a (f a)) :
    ∀ a : Option α, Option.Rel related a (a.map f)
  | none => .none
  | some a => .some (h a)

theorem rearranges_reversed (archive : Archive) : archive.Rearranges archive.reversed where
  format := rfl
  adocweavePackageVersion := rfl
  noteProfileVersion := rfl
  principals := rel_map (rearranged_reverse_map fun principal =>
    ⟨rfl, rfl, (List.reverse_perm principal.aliases).symm⟩) _
  notes := (List.reverse_perm _).symm
  noteRevisions := rel_map (rearranged_reverse_map fun revision =>
    ⟨rfl, (List.reverse_perm revision.attachmentIds).symm⟩) _
  attachments := rel_map (fun attachments => (List.reverse_perm attachments).symm) _
  noteAcl := (List.reverse_perm _).symm
  bibliographyItems := (List.reverse_perm _).symm
  bibliographyImportSources := (List.reverse_perm _).symm
  bibliographyImportLinks := (List.reverse_perm _).symm
  mathMacroSettings := (List.reverse_perm _).symm

/-- Two principals, two notes with their history and images, and what else is in two lists. -/
def sharedNotes : Archive where
  format := "marginalis-archive-18"
  adocweavePackageVersion := "0.48.0"
  noteProfileVersion := archiveNoteProfileVersion
  principals := some [⟨"i", "bob", []⟩, ⟨"i", "alice", [⟨"j", "alice"⟩, ⟨"i", "alice"⟩]⟩]
  notes := [⟨"n2", "i", "bob", "= B", 100, 200, 1, none, none⟩,
    ⟨"n1", "i", "alice", "= A", 100, 300, 2, none, none⟩]
  noteRevisions := some
    [⟨"n1", 2, 300, "i", "alice", .contentUpdated, "= A", none, true, none, none, none, none,
        ["p2", "p1"]⟩,
      ⟨"n1", 1, 100, "i", "alice", .created, "= A", none, true, none, none, none, none, []⟩,
      ⟨"n2", 1, 200, "i", "bob", .created, "= B", none, true, none, none, none, none, []⟩]
  attachments := some
    [⟨"p2", "n1", "b.png", .png, 1, "cd", "Ag==", 200, "i", "alice"⟩,
      ⟨"p1", "n1", "a.png", .png, 1, "ab", "AQ==", 200, "i", "alice"⟩]
  noteAcl := [⟨"n2", "i", "alice", .read⟩, ⟨"n1", "i", "bob", .edit⟩]
  bibliographyItems := [⟨"b2", "i", "alice", "two", .object [], 100, 100, 1⟩,
    ⟨"b1", "i", "alice", "one", .object [], 100, 100, 1⟩]
  bibliographyImportSources := [⟨"s2", "i", "bob", "Papers", 1, 100, 100⟩,
    ⟨"s1", "i", "alice", "Papers", 1, 100, 100⟩]
  bibliographyImportLinks := [⟨"s1", "two", "b2", "cd", 1⟩, ⟨"s1", "one", "b1", "ab", 1⟩]
  mathMacroSettings := [⟨"i", "bob", [⟨"R", "x", 0⟩], 1⟩,
    ⟨"i", "alice", [⟨"Z", "y", 0⟩, ⟨"R", "x", 0⟩], 1⟩]

theorem distinctKeys_sharedNotes : sharedNotes.DistinctKeys where
  principals := by decide
  notes := by decide
  noteRevisions := by decide
  attachments := by decide
  noteAcl := by decide
  bibliographyItems := by decide
  bibliographyImportSources := by decide
  bibliographyImportLinks := by decide
  mathMacroSettings := by decide

/-- No list of the archive is in order, and all of them are when it is canonical. -/
theorem canonical_rearranged_sharedNotes :
    sharedNotes.canonical.canonical = sharedNotes.canonical ∧
      sharedNotes.reversed.canonical = sharedNotes.canonical ∧
      sharedNotes.reversed.noteRevisions ≠ sharedNotes.noteRevisions ∧
      sharedNotes.canonical.principals = some
        [⟨"i", "alice", [⟨"i", "alice"⟩, ⟨"j", "alice"⟩]⟩, ⟨"i", "bob", []⟩] := by
  have h := canonical_rearranged distinctKeys_sharedNotes
  exact ⟨h.1, h.2 _ (rearranges_reversed _), by decide, by decide⟩

end Archive

end Marginalis
