import Marginalis.EachAfter
import Marginalis.MappedRows
import Marginalis.PurgeNotes
import Marginalis.Snapshot

/-!
# The parts of a snapshot

The constructors of `LogicalSnapshot` take the parts of a snapshot one after the other, and each
of them goes through its part entry by entry. Both an export and the reader of an archive call
them in the same order (`SnapshotParts.snapshot`). Together they accept parts exactly when these
fit (`snapshot_eq_ok_iff`) : ids and keys differ, what an entry names is there, histories are
complete, and every principal that is named is among the principals. None of this depends on the
order of the entries, so neither does what is accepted (`Fits.rearrange`).
-/

namespace Marginalis

open List (EachAfter)
open Table (orderBy)

/-- The parts of a snapshot, in the order the constructors take them. -/
structure SnapshotParts (lib : AttachmentLibrary) (json : JsonCodec) where
  notes : List Note
  noteAcl : List NoteAclSnapshotEntry
  noteRevisions : List NoteRevisionSnapshot
  items : List (BibliographyItem json)
  sources : List BibliographyImportSource
  links : List BibliographyImportLink
  mathMacroSettings : List MathMacroSettingsSnapshot
  principals : List Principal
  attachments : List (StoredAttachment lib)
  attachmentReferences : List NoteRevisionAttachment

variable {lib : AttachmentLibrary} {json : JsonCodec}

/-- The snapshot of the parts, through its constructors. -/
def SnapshotParts.snapshot (parts : SnapshotParts lib json) :
    Except InvalidSnapshot (LogicalSnapshot lib json) := do
  let snapshot ← LogicalSnapshot.new parts.notes parts.noteAcl
  let snapshot ← snapshot.withNoteRevisions parts.noteRevisions
  let snapshot ← snapshot.withBibliographyData parts.items parts.sources parts.links
  let snapshot ← snapshot.withMathMacroSettings parts.mathMacroSettings
  let snapshot ← snapshot.withPrincipals parts.principals
  snapshot.withAttachments parts.attachments parts.attachmentReferences

/-! ## Loops over entries -/

section Loops

variable {α κ σ : Type} {invalid : ℕ → InvalidSnapshot} {entries : List α} {position : ℕ}

/-- A loop passes when every entry fits the ones before it. -/
theorem checkEach_eq_ok {check : σ → α → Option σ} (state : List α → σ) {P : List α → α → Prop}
    (hcheck : ∀ before a s, check (state before) a = some s ↔
      P before a ∧ s = state (before ++ [a])) {result : σ} :
    checkEach invalid check position (state []) entries = .ok result ↔
      EachAfter P entries ∧ result = state entries := by
  suffices hrest : ∀ (rest before : List α) (position : ℕ),
      checkEach invalid check position (state before) rest = .ok result ↔
        EachAfter (fun between a => P (before ++ between) a) rest ∧
          result = state (before ++ rest) from
    hrest entries [] position
  intro rest
  induction rest with
  | nil =>
    intro before position
    simp [checkEach, List.eachAfter_nil, eq_comm]
  | cons a rest ih =>
    intro before position
    rw [checkEach, List.eachAfter_cons, List.append_nil]
    by_cases ha : P before a
    · rw [(hcheck before a _).mpr ⟨ha, rfl⟩]
      simpa [ha, List.append_assoc] using ih (before ++ [a]) (position + 1)
    · cases hs : check (state before) a with
      | none => simp [ha]
      | some s => exact absurd ((hcheck before a s).mp hs).1 ha

theorem exists_checkEach {check : σ → α → Option σ} (state : List α → σ)
    {P : List α → α → Prop} (hcheck : ∀ before a s, check (state before) a = some s ↔
      P before a ∧ s = state (before ++ [a])) :
    (∃ result, checkEach invalid check position (state []) entries = .ok result) ↔
      EachAfter P entries := by
  simp only [checkEach_eq_ok state hcheck, exists_and_left, exists_eq, and_true]

/-- The loop asks for keys that differ, and for something of each entry. -/
theorem exists_checkEach_keyed [DecidableEq κ] {check : List κ → α → Option (List κ)}
    (key : α → κ) (p : α → Prop) (hcheck : ∀ seen a seen', check seen a = some seen' ↔
      p a ∧ insertNew seen (key a) = some seen') :
    (∃ seen, checkEach invalid check position [] entries = .ok seen) ↔
      (∀ a ∈ entries, p a) ∧ (entries.map key).Nodup := by
  rw [← List.eachAfter_forall, ← List.eachAfter_notMem, ← List.eachAfter_and]
  refine exists_checkEach (fun before : List α => (before.map key).reverse) ?_
  intro before a seen
  rw [hcheck, insertNew_eq_some, List.mem_reverse, ← and_assoc]
  simp

end Loops

namespace LogicalSnapshot

/-! ## Principals -/

/-- No two principals have an id or an identity in common. -/
structure DistinctPrincipals (principals : List Principal) : Prop where
  ids : (principals.map fun principal => principal.reference.id).Nodup
  identities : principals.Pairwise fun a b => a.identities.Disjoint b.identities

/-- One of the principals is the one that is referred to. -/
def Knows (principals : List Principal) (reference : PrincipalRef) : Prop :=
  ∃ principal ∈ principals, principal.reference = reference

/-- The principals are some of `all`, with some of their identities. -/
def Within (all principals : List Principal) : Prop :=
  ∀ principal ∈ principals, ∃ whole ∈ all, whole.reference = principal.reference ∧
    principal.identities ⊆ whole.identities

variable {all principals included : List Principal} {reference : PrincipalRef}
  {references : List PrincipalRef}

theorem DistinctPrincipals.find? (h : DistinctPrincipals all) {principal : Principal}
    (hmem : principal ∈ all) : all.find? (fun other =>
      other.reference.id = principal.reference.id) = some principal :=
  (List.find?_key_eq_some h.ids).mpr ⟨hmem, rfl⟩

theorem DistinctPrincipals.eq_of_mem (h : DistinctPrincipals all) {a b : Principal} (ha : a ∈ all)
    (hb : b ∈ all) {identity : Identity} (hida : identity ∈ a.identities)
    (hidb : identity ∈ b.identities) : a = b := by
  have hsymm : Std.Symm fun a b : Principal => a.identities.Disjoint b.identities :=
    ⟨fun _ _ hdisjoint => hdisjoint.symm⟩
  by_contra hne
  exact h.identities.forall ha hb hne hida hidb

theorem DistinctPrincipals.eq_of_knows (h : DistinctPrincipals all) {a b : PrincipalRef}
    (ha : Knows all a) (hb : Knows all b) (hid : a.id = b.id) : a = b := by
  obtain ⟨p, hp, rfl⟩ := ha
  obtain ⟨q, hq, rfl⟩ := hb
  rw [List.inj_on_of_nodup_map h.ids hp hq hid]

theorem DistinctPrincipals.within (h : Within all principals) (hknows : Knows all reference)
    (hall : DistinctPrincipals all) : ∃ included,
      includePrincipal principals reference = .ok included ∧ Within all included := by
  unfold includePrincipal
  cases hfind : principals.find? fun principal => principal.reference.id = reference.id with
  | some principal =>
    have hid : principal.reference.id = reference.id := by simpa using List.find?_some hfind
    obtain ⟨whole, hwhole, hsame, -⟩ := h principal (List.mem_of_find?_eq_some hfind)
    have heq := hall.eq_of_knows ⟨whole, hwhole, hsame⟩ hknows hid
    exact ⟨principals, if_neg (not_not.mpr (congrArg PrincipalRef.primaryIdentity heq)), h⟩
  | none =>
    obtain ⟨whole, hwhole, rfl⟩ := hknows
    have hother : ¬(principals.any fun principal =>
        whole.reference.primaryIdentity ∈ principal.identities) = true := by
      intro hany
      obtain ⟨principal, hprincipal, hmem⟩ := List.any_eq_true.mp hany
      rw [decide_eq_true_eq] at hmem
      obtain ⟨owner, howner, hsame, hsub⟩ := h principal hprincipal
      have heq := hall.eq_of_mem howner hwhole (hsub hmem) whole.primary_mem
      have hnone := List.find?_eq_none.mp hfind principal hprincipal
      rw [decide_eq_true_eq, ← hsame, heq] at hnone
      exact hnone rfl
    refine ⟨_, if_neg hother, fun principal hprincipal => ?_⟩
    rcases List.mem_append.mp hprincipal with hprincipal | hprincipal
    · exact h principal hprincipal
    · obtain rfl := List.mem_singleton.mp hprincipal
      refine ⟨whole, hwhole, rfl, fun identity hidentity => ?_⟩
      rw [List.mem_singleton.mp hidentity]
      exact whole.primary_mem

/-- A reference to an id that is there adds no principal. -/
theorem includePrincipal_of_mem (hid : ∃ principal ∈ principals,
    principal.reference.id = reference.id)
    (h : includePrincipal principals reference = .ok included) :
    included = principals ∧ Knows principals reference := by
  unfold includePrincipal at h
  split at h
  · next principal hfind =>
    have hid : principal.reference.id = reference.id := by simpa using List.find?_some hfind
    split_ifs at h with hprimary
    refine ⟨(Except.ok.inj h).symm, principal, List.mem_of_find?_eq_some hfind, ?_⟩
    show principal.reference = ⟨reference.id, reference.primaryIdentity⟩
    rw [← hid, ← not_not.mp hprimary]
  · next hnone =>
    obtain ⟨principal, hprincipal, hid⟩ := hid
    simpa [hid] using List.find?_eq_none.mp hnone principal hprincipal

theorem includePrincipal_of_knows (hall : DistinctPrincipals all) (h : Knows all reference) :
    includePrincipal all reference = .ok all := by
  obtain ⟨principal, hprincipal, rfl⟩ := h
  unfold includePrincipal
  rw [hall.find? hprincipal]
  exact if_neg (not_not.mpr rfl)

theorem foldlM_of_mem (hids : ∀ reference ∈ references, ∃ principal ∈ principals,
    principal.reference.id = reference.id)
    (h : references.foldlM includePrincipal principals = .ok included) :
    included = principals ∧ ∀ reference ∈ references, Knows principals reference := by
  induction references with
  | nil => exact ⟨(Except.ok.inj h).symm, by simp⟩
  | cons reference rest ih =>
    rw [List.foldlM_cons] at h
    obtain ⟨first, hfirst, hrest⟩ := Except.bind_eq_ok.mp h
    obtain ⟨rfl, hknows⟩ := includePrincipal_of_mem (hids reference List.mem_cons_self) hfirst
    obtain ⟨hsame, hothers⟩ := ih (fun r hr => hids r (List.mem_cons_of_mem _ hr)) hrest
    exact ⟨hsame, List.forall_mem_cons.mpr ⟨hknows, hothers⟩⟩

theorem foldlM_of_knows (hall : DistinctPrincipals all)
    (h : ∀ reference ∈ references, Knows all reference) :
    references.foldlM includePrincipal all = .ok all := by
  induction references with
  | nil => rfl
  | cons reference rest ih =>
    obtain ⟨hknows, hrest⟩ := List.forall_mem_cons.mp h
    rw [List.foldlM_cons, includePrincipal_of_knows hall hknows]
    exact ih hrest

/-! ## References to principals -/

variable {s s' : LogicalSnapshot lib json} {K : PrincipalRef → Prop}

/-- The owner and the reviewer of a note. -/
def NoteRefers (K : PrincipalRef → Prop) (note : Note) : Prop :=
  K note.owner ∧ ∀ review ∈ note.review.lastReview, K review.reviewer

/-- Whoever is referred to by the parts. -/
structure Refers (K : PrincipalRef → Prop) (s : LogicalSnapshot lib json) : Prop where
  notes : ∀ note ∈ s.notes, NoteRefers K note
  noteRevisions : ∀ entry ∈ s.noteRevisions,
    K entry.changedBy ∧ ∀ review ∈ entry.note.review.lastReview, K review.reviewer
  attachments : ∀ attachment ∈ s.attachments, K attachment.metadata.createdBy
  noteAcl : ∀ entry ∈ s.noteAcl, K entry.principal
  items : ∀ item ∈ s.bibliographyItems, K item.owner
  sources : ∀ source ∈ s.bibliographyImportSources, K source.owner
  mathMacroSettings : ∀ entry ∈ s.mathMacroSettings, K entry.owner

theorem Refers.imp (h : s.Refers K) {K' : PrincipalRef → Prop}
    (himp : ∀ reference, K reference → K' reference) : s.Refers K' where
  notes note hnote := ⟨himp _ (h.notes note hnote).1,
    fun review hreview => himp _ ((h.notes note hnote).2 review hreview)⟩
  noteRevisions entry hentry := ⟨himp _ (h.noteRevisions entry hentry).1,
    fun review hreview => himp _ ((h.noteRevisions entry hentry).2 review hreview)⟩
  attachments attachment hmem := himp _ (h.attachments attachment hmem)
  noteAcl entry hentry := himp _ (h.noteAcl entry hentry)
  items item hitem := himp _ (h.items item hitem)
  sources source hsource := himp _ (h.sources source hsource)
  mathMacroSettings entry hentry := himp _ (h.mathMacroSettings entry hentry)

theorem forall_principalReferences : (∀ reference ∈ s.principalReferences, K reference) ↔
    s.Refers K := by
  have hreviewer : ∀ review : Option NoteReviewRecord,
      (∀ reference ∈ (review.map NoteReviewRecord.reviewer).toList, K reference) ↔
        ∀ record ∈ review, K record.reviewer := by
    simp
  unfold principalReferences
  simp only [List.forall_mem_append, List.forall_mem_flatMap, List.forall_mem_cons,
    List.forall_mem_map, hreviewer]
  constructor
  · rintro ⟨⟨⟨⟨⟨⟨hnotes, hrevisions⟩, hattachments⟩, hacl⟩, hitems⟩, hsources⟩, hsettings⟩
    exact ⟨hnotes, hrevisions, hattachments, hacl, hitems, hsources, hsettings⟩
  · rintro ⟨hnotes, hrevisions, hattachments, hacl, hitems, hsources, hsettings⟩
    exact ⟨⟨⟨⟨⟨⟨hnotes, hrevisions⟩, hattachments⟩, hacl⟩, hitems⟩, hsources⟩, hsettings⟩

theorem includeReferencedPrincipals_eq_ok_iff : s.includeReferencedPrincipals = .ok s' ↔
    ∃ included, s.principalReferences.foldlM includePrincipal s.principals = .ok included ∧
      s' = { s with principals := included } := by
  unfold includeReferencedPrincipals
  rw [Except.bind_eq_ok]
  exact exists_congr fun _ => and_congr_right fun _ => ⟨fun h => (Except.ok.inj h).symm,
    fun h => congrArg Except.ok h.symm⟩

/-- Parts that name principals of `all` only never contradict each other. -/
theorem Refers.include (hrefers : s.Refers (Knows all)) (hall : DistinctPrincipals all)
    (hwithin : Within all s.principals) : ∃ included,
      s.includeReferencedPrincipals = .ok { s with principals := included } ∧
        Within all included := by
  obtain ⟨included, hfold, hwithin⟩ := Except.exists_foldlM (fun principals reference hmem h =>
    DistinctPrincipals.within h (forall_principalReferences.mpr hrefers reference hmem) hall)
    hwithin
  exact ⟨included, includeReferencedPrincipals_eq_ok_iff.mpr ⟨included, hfold, rfl⟩, hwithin⟩

/-- With all principals in place none is added. -/
theorem include_complete (hall : DistinctPrincipals s.principals)
    (hids : s.Refers fun reference => ∃ principal ∈ s.principals,
      principal.reference.id = reference.id) :
    s.includeReferencedPrincipals = .ok s' ↔ s.Refers (Knows s.principals) ∧ s' = s := by
  rw [includeReferencedPrincipals_eq_ok_iff]
  constructor
  · rintro ⟨included, hfold, rfl⟩
    obtain ⟨rfl, hknows⟩ := foldlM_of_mem (forall_principalReferences.mpr hids) hfold
    exact ⟨forall_principalReferences.mp hknows, rfl⟩
  · rintro ⟨hrefers, rfl⟩
    exact ⟨_, foldlM_of_knows hall (forall_principalReferences.mpr hrefers), rfl⟩

/-! ## Notes and grants -/

/-- Notes have ids of their own, and a grant is one of a note to someone else than its owner. -/
structure NotesFit (notes : List Note) (noteAcl : List NoteAclSnapshotEntry) : Prop where
  ids : (notes.map fun note => note.noteId).Nodup
  keys : (noteAcl.map fun entry => (entry.noteId, entry.principal.id)).Nodup
  granted : ∀ entry ∈ noteAcl, ∃ note ∈ notes, note.noteId = entry.noteId ∧
    ¬entry.principal.Same note.owner

theorem NotesFit.perm {notes notes' : List Note} {noteAcl noteAcl' : List NoteAclSnapshotEntry}
    (h : NotesFit notes noteAcl) (hnotes : notes.Perm notes') (hacl : noteAcl.Perm noteAcl') :
    NotesFit notes' noteAcl' where
  ids := (hnotes.map _).nodup_iff.mp h.ids
  keys := (hacl.map _).nodup_iff.mp h.keys
  granted entry hentry := by
    obtain ⟨note, hnote, hgranted⟩ := h.granted entry (hacl.mem_iff.mpr hentry)
    exact ⟨note, hnotes.mem_iff.mp hnote, hgranted⟩

/-- The snapshot of notes and grants, before any other part. -/
def start (notes : List Note) (noteAcl : List NoteAclSnapshotEntry) : LogicalSnapshot lib json where
  principals := []
  notes := notes
  noteRevisions := notes.map fun note => ⟨note, note.owner, .imported⟩
  attachments := []
  noteRevisionAttachments := []
  noteAcl := noteAcl
  bibliographyItems := []
  bibliographyImportSources := []
  bibliographyImportLinks := []
  mathMacroSettings := []

variable {notes : List Note} {noteAcl : List NoteAclSnapshotEntry}
  {revisions : List NoteRevisionSnapshot}

theorem exists_checkAclEntries (hids : (notes.map fun note => note.noteId).Nodup) :
    (∃ seen, checkEach .invalidAclEntry (checkAclEntry notes) 1 [] noteAcl = .ok seen) ↔
      (∀ entry ∈ noteAcl, ∃ note ∈ notes, note.noteId = entry.noteId ∧
        ¬entry.principal.Same note.owner) ∧
        (noteAcl.map fun entry => (entry.noteId, entry.principal.id)).Nodup := by
  refine exists_checkEach_keyed _ _ fun seen entry seen' => ?_
  rw [List.exists_mem_key_iff hids]
  unfold checkAclEntry
  cases notes.find? fun note => decide (note.noteId = entry.noteId) with
  | none => simp
  | some note =>
    by_cases hsame : entry.principal.Same note.owner
    · simp [hsame]
    · simp [hsame]

theorem new_eq_ok : new notes noteAcl = .ok s ↔
    NotesFit notes noteAcl ∧ (start notes noteAcl).includeReferencedPrincipals = .ok s := by
  have hnotes : (∃ ids, checkEach .duplicateNote
      (fun seen (note : Note) => insertNew seen note.noteId) 1 [] notes = .ok ids) ↔
        (notes.map fun note => note.noteId).Nodup := by
    rw [exists_checkEach_keyed (fun note : Note => note.noteId) (fun _ => True) (by simp)]
    simp
  unfold new
  simp only [Except.bind_eq_ok, exists_and_right]
  rw [hnotes]
  constructor
  · rintro ⟨hids, hacl, h⟩
    obtain ⟨hgranted, hkeys⟩ := (exists_checkAclEntries hids).mp hacl
    exact ⟨⟨hids, hkeys, hgranted⟩, h⟩
  · rintro ⟨hfit, h⟩
    exact ⟨hfit.ids, (exists_checkAclEntries hfit.ids).mpr ⟨hfit.granted, hfit.keys⟩, h⟩

/-! ## History -/

/-- The revisions in the order they are kept in. -/
def sortedRevisions (revisions : List NoteRevisionSnapshot) : List NoteRevisionSnapshot :=
  orderBy (fun entry => toLex (entry.note.noteId.entityId, entry.note.revision)) revisions

/-- Every revision is one of a note that has got at least as far, and the history of every note is
complete. -/
structure RevisionsFit (notes : List Note) (revisions : List NoteRevisionSnapshot) : Prop where
  keys : (revisions.map fun entry => (entry.note.noteId, entry.note.revision)).Nodup
  ofNote : ∀ entry ∈ revisions, ∃ current ∈ notes, current.noteId = entry.note.noteId ∧
    entry.note.owner.Same current.owner ∧ entry.note.createdAt = current.createdAt ∧
      entry.note.createdVia = current.createdVia ∧ entry.note.revision ≤ current.revision
  complete : ∀ current ∈ notes, isCompleteHistory ((sortedRevisions revisions).filter fun entry =>
    entry.note.noteId = current.noteId) current = true

/-- Revisions with keys of their own are kept in one order. -/
theorem sortedRevisions_congr {revisions revisions' : List NoteRevisionSnapshot}
    (hkeys : (revisions.map fun entry => (entry.note.noteId, entry.note.revision)).Nodup)
    (h : revisions.Perm revisions') : sortedRevisions revisions = sortedRevisions revisions' := by
  refine Table.orderBy_congr h fun a ha b hb heq => ?_
  obtain ⟨hid, hrevision⟩ := Prod.mk.inj (toLex.injective heq)
  have hnote : a.note.noteId = b.note.noteId := congrArg NoteId.mk hid
  exact List.inj_on_of_nodup_map hkeys ha hb (Prod.ext hnote hrevision)

theorem RevisionsFit.perm {notes notes' : List Note}
    {revisions revisions' : List NoteRevisionSnapshot} (h : RevisionsFit notes revisions)
    (hnotes : notes.Perm notes') (hrevisions : revisions.Perm revisions') :
    RevisionsFit notes' revisions' where
  keys := (hrevisions.map _).nodup_iff.mp h.keys
  ofNote entry hentry := by
    obtain ⟨current, hcurrent, hof⟩ := h.ofNote entry (hrevisions.mem_iff.mpr hentry)
    exact ⟨current, hnotes.mem_iff.mp hcurrent, hof⟩
  complete current hcurrent := by
    rw [← sortedRevisions_congr h.keys hrevisions]
    exact h.complete current (hnotes.mem_iff.mpr hcurrent)

theorem exists_checkRevisions (hids : (notes.map fun note => note.noteId).Nodup) :
    (∃ seen, checkEach .invalidNoteRevision (checkRevision notes) 1 []
      (sortedRevisions revisions) = .ok seen) ↔
      (∀ entry ∈ revisions, ∃ current ∈ notes, current.noteId = entry.note.noteId ∧
        entry.note.owner.Same current.owner ∧ entry.note.createdAt = current.createdAt ∧
          entry.note.createdVia = current.createdVia ∧ entry.note.revision ≤ current.revision) ∧
        (revisions.map fun entry => (entry.note.noteId, entry.note.revision)).Nodup := by
  have hperm : (sortedRevisions revisions).Perm revisions := Table.orderBy_perm
  rw [← (hperm.map _).nodup_iff]
  simp only [← hperm.mem_iff]
  refine exists_checkEach_keyed _ _ fun seen entry seen' => ?_
  rw [List.exists_mem_key_iff hids]
  unfold checkRevision
  cases notes.find? fun note => decide (note.noteId = entry.note.noteId) with
  | none => simp
  | some current =>
    dsimp only
    split_ifs with hother
    · simp only [Option.some.injEq, exists_eq_left', false_iff, not_and]
      rintro ⟨howner, hcreated, hvia, hrevision⟩
      rcases hother with hother | hother | hother | hother
      · exact absurd howner hother
      · exact absurd hcreated hother
      · exact absurd hvia hother
      · omega
    · simp only [not_or, not_not, not_lt] at hother
      simp [hother]

theorem withNoteRevisions_eq_ok (hids : (s.notes.map fun note => note.noteId).Nodup) :
    s.withNoteRevisions revisions = .ok s' ↔ RevisionsFit s.notes revisions ∧
      { s with noteRevisions := sortedRevisions revisions }.includeReferencedPrincipals =
        .ok s' := by
  constructor
  · intro h
    obtain ⟨seen, hloop, h⟩ := Except.bind_eq_ok.mp h
    obtain ⟨hnotes, hkeys⟩ := (exists_checkRevisions hids).mp ⟨seen, hloop⟩
    split_ifs at h with hcomplete
    exact ⟨⟨hkeys, hnotes, List.all_eq_true.mp hcomplete⟩, h⟩
  · rintro ⟨hfit, h⟩
    obtain ⟨seen, hloop⟩ := (exists_checkRevisions hids).mpr ⟨hfit.ofNote, hfit.keys⟩
    exact Except.bind_eq_ok.mpr ⟨seen, hloop,
      (if_pos (List.all_eq_true.mpr hfit.complete)).trans h⟩

/-! ## Libraries and macros -/

/-- Items have ids of their own and keys of their own in the library of their owner. A link is one
between a source and an item of one owner, which has got at least as far as the import. -/
structure LibraryFits (items : List (BibliographyItem json))
    (sources : List BibliographyImportSource) (links : List BibliographyImportLink) : Prop where
  itemIds : (items.map fun item => item.itemId).Nodup
  itemKeys : (items.map fun item => (item.owner.id, item.citationKey)).Nodup
  sourceIds : (sources.map fun source => source.sourceId).Nodup
  linkKeys : (links.map fun link => (link.sourceId, link.externalItemId)).Nodup
  linked : ∀ link ∈ links, ∃ source ∈ sources, source.sourceId = link.sourceId ∧
    ∃ item ∈ items, item.itemId = link.itemId ∧ source.owner.Same item.owner ∧
      link.importedItemRevision ≤ item.revision

theorem LibraryFits.perm {items items' : List (BibliographyItem json)}
    {sources sources' : List BibliographyImportSource} {links links' : List BibliographyImportLink}
    (h : LibraryFits items sources links) (hitems : items.Perm items')
    (hsources : sources.Perm sources') (hlinks : links.Perm links') :
    LibraryFits items' sources' links' where
  itemIds := (hitems.map _).nodup_iff.mp h.itemIds
  itemKeys := (hitems.map _).nodup_iff.mp h.itemKeys
  sourceIds := (hsources.map _).nodup_iff.mp h.sourceIds
  linkKeys := (hlinks.map _).nodup_iff.mp h.linkKeys
  linked link hlink := by
    obtain ⟨source, hsource, hid, item, hitem, hlinked⟩ :=
      h.linked link (hlinks.mem_iff.mpr hlink)
    exact ⟨source, hsources.mem_iff.mp hsource, hid, item, hitems.mem_iff.mp hitem, hlinked⟩

variable {items : List (BibliographyItem json)} {sources : List BibliographyImportSource}
  {links : List BibliographyImportLink} {settings : List MathMacroSettingsSnapshot}

theorem exists_checkItems :
    (∃ seen, checkEach .invalidBibliographyItem checkItem 1 ([], []) items = .ok seen) ↔
      (items.map fun item => item.itemId).Nodup ∧
        (items.map fun item => (item.owner.id, item.citationKey)).Nodup := by
  rw [← List.eachAfter_notMem, ← List.eachAfter_notMem, ← List.eachAfter_and]
  refine exists_checkEach (fun before : List (BibliographyItem json) =>
    ((before.map fun item => item.itemId).reverse,
      (before.map fun item => (item.owner.id, item.citationKey)).reverse)) ?_
  intro before item seen
  simp only [checkItem, Option.bind_eq_bind, Option.bind_eq_some_iff, insertNew_eq_some,
    List.mem_reverse]
  constructor
  · rintro ⟨_, ⟨hid, rfl⟩, _, ⟨hkey, rfl⟩, hseen⟩
    refine ⟨⟨hid, hkey⟩, (Option.some.inj hseen).symm.trans ?_⟩
    simp
  · rintro ⟨⟨hid, hkey⟩, rfl⟩
    refine ⟨_, ⟨hid, rfl⟩, _, ⟨hkey, rfl⟩, ?_⟩
    simp

theorem exists_checkLinks (hitems : (items.map fun item => item.itemId).Nodup)
    (hsources : (sources.map fun source => source.sourceId).Nodup) :
    (∃ seen, checkEach .invalidBibliographyImportLink (checkLink items sources) 1 [] links =
      .ok seen) ↔
      (∀ link ∈ links, ∃ source ∈ sources, source.sourceId = link.sourceId ∧
        ∃ item ∈ items, item.itemId = link.itemId ∧ source.owner.Same item.owner ∧
          link.importedItemRevision ≤ item.revision) ∧
        (links.map fun link => (link.sourceId, link.externalItemId)).Nodup := by
  refine exists_checkEach_keyed _ _ fun seen link seen' => ?_
  simp only [List.exists_mem_key_iff hitems, List.exists_mem_key_iff hsources]
  unfold checkLink
  simp only [Option.bind_eq_bind, Option.bind_eq_some_iff, Option.ite_none_left_eq_some, not_or,
    not_not, not_lt, ← and_assoc, exists_and_right]

theorem withBibliographyData_eq_ok : s.withBibliographyData items sources links = .ok s' ↔
    LibraryFits items sources links ∧ { s with
      bibliographyItems := items
      bibliographyImportSources := sources
      bibliographyImportLinks := links }.includeReferencedPrincipals = .ok s' := by
  have hsources : (∃ seen, checkEach .invalidBibliographyImportSource
      (fun seen (source : BibliographyImportSource) => insertNew seen source.sourceId) 1 []
        sources = .ok seen) ↔ (sources.map fun source => source.sourceId).Nodup := by
    rw [exists_checkEach_keyed (fun source : BibliographyImportSource => source.sourceId)
      (fun _ => True) (by simp)]
    simp
  unfold withBibliographyData
  simp only [Except.bind_eq_ok, exists_and_right]
  rw [exists_checkItems, hsources]
  constructor
  · rintro ⟨⟨hitems, hkeys⟩, hsourceIds, hlinks, h⟩
    obtain ⟨hlinked, hlinkKeys⟩ := (exists_checkLinks hitems hsourceIds).mp hlinks
    exact ⟨⟨hitems, hkeys, hsourceIds, hlinkKeys, hlinked⟩, h⟩
  · rintro ⟨hfits, h⟩
    exact ⟨⟨hfits.itemIds, hfits.itemKeys⟩, hfits.sourceIds,
      (exists_checkLinks hfits.itemIds hfits.sourceIds).mpr ⟨hfits.linked, hfits.linkKeys⟩, h⟩

/-- Everyone has one list of macros at most, and each is one that may be stored. -/
structure SettingsFit (settings : List MathMacroSettingsSnapshot) : Prop where
  owners : (settings.map fun entry => entry.owner.id).Nodup
  valid : ∀ entry ∈ settings, 1 ≤ entry.settings.revision ∧
    validateStoredMathMacros entry.settings.macros = .ok ()

theorem SettingsFit.perm {settings settings' : List MathMacroSettingsSnapshot}
    (h : SettingsFit settings) (hsettings : settings.Perm settings') : SettingsFit settings' where
  owners := (hsettings.map _).nodup_iff.mp h.owners
  valid entry hentry := h.valid entry (hsettings.mem_iff.mpr hentry)

theorem withMathMacroSettings_eq_ok : s.withMathMacroSettings settings = .ok s' ↔
    SettingsFit settings ∧
      { s with mathMacroSettings := settings }.includeReferencedPrincipals = .ok s' := by
  have hloop : (∃ seen, checkEach .invalidMathMacroSettings checkMathMacroSettings 1 [] settings =
      .ok seen) ↔ SettingsFit settings := by
    rw [exists_checkEach_keyed (fun entry : MathMacroSettingsSnapshot => entry.owner.id)
      fun entry => 1 ≤ entry.settings.revision ∧
        validateStoredMathMacros entry.settings.macros = .ok ()]
    · exact ⟨fun h => ⟨h.2, h.1⟩, fun h => ⟨h.valid, h.owners⟩⟩
    · intro seen entry seen'
      unfold checkMathMacroSettings
      by_cases hrevision : entry.settings.revision < 1
      · simp [hrevision]
      · cases validateStoredMathMacros entry.settings.macros with
        | error _ => simp [hrevision]
        | ok _ => simp [hrevision, not_lt.mp hrevision]
  unfold withMathMacroSettings
  simp only [Except.bind_eq_ok, exists_and_right]
  rw [hloop]

/-! ## Principals in their place -/

theorem validatePrincipalReferences_eq_ok (h : DistinctPrincipals s.principals) :
    s.validatePrincipalReferences = .ok () ↔ s.Refers (Knows s.principals) := by
  have hknows : ∀ reference : PrincipalRef,
      (s.principals.find? fun principal => principal.reference.id = reference.id).any
        (fun principal => principal.reference.primaryIdentity = reference.primaryIdentity) = true ↔
          Knows s.principals reference := by
    intro reference
    simp only [Option.any_eq_true, List.find?_key_eq_some h.ids, decide_eq_true_eq]
    constructor
    · rintro ⟨principal, ⟨hprincipal, hid⟩, hprimary⟩
      refine ⟨principal, hprincipal, ?_⟩
      show principal.reference = ⟨reference.id, reference.primaryIdentity⟩
      rw [← hid, ← hprimary]
    · rintro ⟨principal, hprincipal, rfl⟩
      exact ⟨principal, ⟨hprincipal, rfl⟩, rfl⟩
  rw [← forall_principalReferences]
  unfold validatePrincipalReferences
  simp [hknows]

theorem withPrincipals_eq_ok : s.withPrincipals principals = .ok s' ↔
    DistinctPrincipals principals ∧ { s with principals }.Refers (Knows principals) ∧
      s' = { s with principals } := by
  have hloop : (∃ seen, checkEach .invalidPrincipal
      (fun (seen : List PrincipalId × List Identity) (principal : Principal) =>
        if principal.identities.any fun identity => identity ∈ seen.2 then none
        else (insertNew seen.1 principal.reference.id).map fun ids =>
          (ids, principal.identities ++ seen.2)) 1 ([], []) principals = .ok seen) ↔
        DistinctPrincipals principals := by
    have hdistinct : DistinctPrincipals principals ↔ EachAfter (fun before principal =>
        (∀ other ∈ before, other.identities.Disjoint principal.identities) ∧
          principal.reference.id ∉ before.map fun other => other.reference.id) principals := by
      rw [List.eachAfter_and, List.eachAfter_pairwise, List.eachAfter_notMem]
      exact ⟨fun h => ⟨h.identities, h.ids⟩, fun h => ⟨h.2, h.1⟩⟩
    rw [hdistinct]
    refine exists_checkEach (fun before : List Principal =>
      ((before.map fun principal => principal.reference.id).reverse,
        before.reverse.flatMap Principal.identities)) ?_
    intro before principal seen
    have hany : (principal.identities.any fun identity =>
        identity ∈ before.reverse.flatMap Principal.identities) = true ↔
          ¬∀ other ∈ before, other.identities.Disjoint principal.identities := by
      simp only [List.any_eq_true, decide_eq_true_eq, List.mem_flatMap, List.mem_reverse,
        List.Disjoint, not_forall, not_false_eq_true, exists_prop]
      constructor
      · rintro ⟨identity, hidentity, other, hother, hmem⟩
        exact ⟨other, hother, identity, hmem, hidentity, trivial⟩
      · rintro ⟨other, hother, identity, hmem, hidentity, -⟩
        exact ⟨identity, hidentity, other, hother, hmem⟩
    dsimp only
    rw [Option.ite_none_left_eq_some, hany, not_not, Option.map_eq_some_iff, and_assoc]
    refine and_congr_right fun _ => ?_
    simp only [insertNew_eq_some, List.mem_reverse]
    constructor
    · rintro ⟨_, ⟨hid, rfl⟩, rfl⟩
      exact ⟨hid, by simp⟩
    · rintro ⟨hid, rfl⟩
      exact ⟨_, ⟨hid, rfl⟩, by simp⟩
  unfold withPrincipals
  simp only [Except.bind_eq_ok, exists_and_right]
  rw [hloop]
  refine and_congr_right fun hdistinct => ?_
  constructor
  · rintro ⟨⟨_, hvalid⟩, hs'⟩
    exact ⟨(validatePrincipalReferences_eq_ok hdistinct).mp hvalid, (Except.ok.inj hs').symm⟩
  · rintro ⟨hrefers, rfl⟩
    exact ⟨⟨_, (validatePrincipalReferences_eq_ok hdistinct).mpr hrefers⟩, rfl⟩

/-! ## Images -/

/-- The images in the order they are kept in. -/
def sortedAttachments (attachments : List (StoredAttachment lib)) : List (StoredAttachment lib) :=
  orderBy (fun attachment => attachment.metadata.attachmentId.entityId) attachments

/-- What revisions show, in the order it is kept in. -/
def sortedReferences (references : List NoteRevisionAttachment) : List NoteRevisionAttachment :=
  orderBy (fun reference => toLex (reference.noteId.entityId, toLex (reference.revision,
    reference.attachmentId.entityId))) references

/-- Images belong to notes that have room for them, and revisions show images of their note. -/
structure AttachmentsFit (notes : List Note) (revisions : List NoteRevisionSnapshot)
    (attachments : List (StoredAttachment lib)) (references : List NoteRevisionAttachment) :
    Prop where
  attachmentIds : (attachments.map fun attachment => attachment.metadata.attachmentId).Nodup
  ofNote : ∀ attachment ∈ attachments,
    attachment.metadata.noteId ∈ notes.map fun note => note.noteId
  count : ∀ noteId, (attachments.filter fun attachment =>
    attachment.metadata.noteId = noteId).length ≤ attachmentPolicy.maxAttachmentsPerNote
  bytes : ∀ noteId, ((attachments.filter fun attachment =>
    attachment.metadata.noteId = noteId).map fun attachment =>
      attachment.metadata.byteLength).sum ≤ attachmentPolicy.maxBytesPerNote
  nodup : references.Nodup
  ofRevision : ∀ reference ∈ references, (reference.noteId, reference.revision) ∈
    revisions.map fun entry => (entry.note.noteId, entry.note.revision)
  shown : ∀ reference ∈ references, ∃ attachment ∈ attachments,
    attachment.metadata.attachmentId = reference.attachmentId ∧
      attachment.metadata.noteId = reference.noteId

theorem AttachmentsFit.perm {notes notes' : List Note}
    {revisions revisions' : List NoteRevisionSnapshot}
    {attachments attachments' : List (StoredAttachment lib)}
    {references references' : List NoteRevisionAttachment}
    (h : AttachmentsFit notes revisions attachments references) (hnotes : notes.Perm notes')
    (hrevisions : revisions.Perm revisions') (hattachments : attachments.Perm attachments')
    (hreferences : references.Perm references') :
    AttachmentsFit notes' revisions' attachments' references' where
  attachmentIds := (hattachments.map _).nodup_iff.mp h.attachmentIds
  ofNote attachment hmem := (hnotes.map _).mem_iff.mp
    (h.ofNote attachment (hattachments.mem_iff.mpr hmem))
  count noteId := (hattachments.filter _).length_eq ▸ h.count noteId
  bytes noteId := by
    have hbytes := ((hattachments.filter fun attachment =>
      attachment.metadata.noteId = noteId).map fun attachment =>
        attachment.metadata.byteLength).sum_eq
    exact hbytes ▸ h.bytes noteId
  nodup := hreferences.nodup_iff.mp h.nodup
  ofRevision reference hmem := (hrevisions.map _).mem_iff.mp
    (h.ofRevision reference (hreferences.mem_iff.mpr hmem))
  shown reference hmem := by
    obtain ⟨attachment, hattachment, heq⟩ := h.shown reference (hreferences.mem_iff.mpr hmem)
    exact ⟨attachment, hattachments.mem_iff.mp hattachment, heq⟩

variable {attachments : List (StoredAttachment lib)} {shown : List NoteRevisionAttachment}

theorem exists_checkAttachments :
    (∃ seen, checkEach .invalidAttachment s.checkAttachment 1 [] attachments = .ok seen) ↔
      (attachments.map fun attachment => attachment.metadata.attachmentId).Nodup ∧
        (∀ attachment ∈ attachments,
          attachment.metadata.noteId ∈ s.notes.map fun note => note.noteId) ∧
        (∀ attachment ∈ attachments, attachment.metadata.createdBy.id ∈
          s.principals.map fun principal => principal.reference.id) ∧
        (∀ noteId, (attachments.filter fun attachment =>
          attachment.metadata.noteId = noteId).length ≤ attachmentPolicy.maxAttachmentsPerNote) ∧
        ∀ noteId, ((attachments.filter fun attachment =>
          attachment.metadata.noteId = noteId).map fun attachment =>
            attachment.metadata.byteLength).sum ≤ attachmentPolicy.maxBytesPerNote := by
  rw [← List.eachAfter_notMem, ← List.eachAfter_forall, ← List.eachAfter_forall,
    ← List.eachAfter_length_le, ← List.eachAfter_sum_le]
  simp only [← List.eachAfter_and]
  refine exists_checkEach List.reverse ?_
  intro before attachment seen
  simp only [checkAttachment, Option.ite_none_left_eq_some, List.filter_reverse, List.map_reverse,
    List.sum_reverse, List.length_reverse, List.mem_reverse, not_or, not_not, not_lt,
    Option.some.injEq, List.reverse_append, List.reverse_singleton, List.singleton_append]
  exact and_congr_right fun _ => eq_comm

theorem exists_checkReferences
    (hids : (attachments.map fun attachment => attachment.metadata.attachmentId).Nodup) :
    (∃ seen, checkEach .invalidAttachmentReference (s.checkAttachmentReference attachments) 1 []
      shown = .ok seen) ↔
      (∀ reference ∈ shown, (reference.noteId, reference.revision) ∈
          s.noteRevisions.map (fun entry => (entry.note.noteId, entry.note.revision)) ∧
        ∃ attachment ∈ attachments, attachment.metadata.attachmentId = reference.attachmentId ∧
          attachment.metadata.noteId = reference.noteId) ∧ shown.Nodup := by
  have hcheck : ∀ seen reference seen',
      s.checkAttachmentReference attachments seen reference = some seen' ↔
        ((reference.noteId, reference.revision) ∈
          s.noteRevisions.map (fun entry => (entry.note.noteId, entry.note.revision)) ∧
          ∃ attachment ∈ attachments, attachment.metadata.attachmentId = reference.attachmentId ∧
            attachment.metadata.noteId = reference.noteId) ∧
          insertNew seen (id reference) = some seen' := by
    intro seen reference seen'
    simp only [List.exists_mem_key_iff hids, checkAttachmentReference,
      Option.ite_none_left_eq_some, not_or, not_not, Option.map_eq_some_iff, id]
  have hid : shown.Nodup ↔ (shown.map id).Nodup := by rw [List.map_id]
  rw [hid]
  exact exists_checkEach_keyed id _ hcheck

theorem withAttachments_eq_ok : s.withAttachments attachments shown = .ok s' ↔
    AttachmentsFit s.notes s.noteRevisions attachments shown ∧
      (∀ attachment ∈ attachments, attachment.metadata.createdBy.id ∈
        s.principals.map fun principal => principal.reference.id) ∧
      { s with
        attachments := sortedAttachments attachments
        noteRevisionAttachments := sortedReferences shown }.includeReferencedPrincipals =
          .ok s' := by
  have hattachments : (sortedAttachments attachments).Perm attachments := Table.orderBy_perm
  have hshown : (sortedReferences shown).Perm shown := Table.orderBy_perm
  have hfilter : ∀ noteId, ((sortedAttachments attachments).filter fun attachment =>
      attachment.metadata.noteId = noteId).Perm (attachments.filter fun attachment =>
        attachment.metadata.noteId = noteId) := fun noteId => hattachments.filter _
  constructor
  · intro h
    obtain ⟨seen, hloop, h⟩ := Except.bind_eq_ok.mp h
    obtain ⟨hids, hnotes, hcreators, hcount, hbytes⟩ := exists_checkAttachments.mp ⟨seen, hloop⟩
    obtain ⟨seen', hloop', h⟩ := Except.bind_eq_ok.mp h
    obtain ⟨hreferences, hnodup⟩ := (exists_checkReferences hids).mp ⟨seen', hloop'⟩
    refine ⟨⟨?_, ?_, ?_, ?_, ?_, ?_, ?_⟩, ?_, h⟩
    · exact (hattachments.map _).nodup_iff.mp hids
    · exact fun attachment hmem => hnotes attachment (hattachments.mem_iff.mpr hmem)
    · exact fun noteId => (hfilter noteId).length_eq ▸ hcount noteId
    · exact fun noteId => ((hfilter noteId).map fun attachment =>
        attachment.metadata.byteLength).sum_eq ▸ hbytes noteId
    · exact hshown.nodup_iff.mp hnodup
    · exact fun reference hmem => (hreferences reference (hshown.mem_iff.mpr hmem)).1
    · intro reference hmem
      obtain ⟨-, attachment, hmem, heq⟩ := hreferences reference (hshown.mem_iff.mpr hmem)
      exact ⟨attachment, hattachments.mem_iff.mp hmem, heq⟩
    · exact fun attachment hmem => hcreators attachment (hattachments.mem_iff.mpr hmem)
  · rintro ⟨hfit, hcreators, h⟩
    have hids := (hattachments.map _).nodup_iff.mpr hfit.attachmentIds
    obtain ⟨seen, hloop⟩ : ∃ seen, checkEach .invalidAttachment s.checkAttachment 1 []
        (sortedAttachments attachments) = .ok seen := by
      refine exists_checkAttachments.mpr ⟨hids, ?_, ?_, ?_, ?_⟩
      · exact fun attachment hmem => hfit.ofNote attachment (hattachments.mem_iff.mp hmem)
      · exact fun attachment hmem => hcreators attachment (hattachments.mem_iff.mp hmem)
      · exact fun noteId => (hfilter noteId).length_eq.symm ▸ hfit.count noteId
      · exact fun noteId => ((hfilter noteId).map fun attachment =>
          attachment.metadata.byteLength).sum_eq.symm ▸ hfit.bytes noteId
    obtain ⟨seen', hloop'⟩ : ∃ seen, checkEach .invalidAttachmentReference
        (s.checkAttachmentReference (sortedAttachments attachments)) 1 []
          (sortedReferences shown) = .ok seen := by
      refine (exists_checkReferences hids).mpr ⟨fun reference hmem => ?_,
        hshown.nodup_iff.mpr hfit.nodup⟩
      have hmem := hshown.mem_iff.mp hmem
      obtain ⟨attachment, hattachment, heq⟩ := hfit.shown reference hmem
      exact ⟨hfit.ofRevision reference hmem, attachment, hattachments.mem_iff.mpr hattachment, heq⟩
    exact Except.bind_eq_ok.mpr ⟨seen, hloop, Except.bind_eq_ok.mpr ⟨seen', hloop', h⟩⟩

end LogicalSnapshot

/-! ## All parts together -/

namespace SnapshotParts

open LogicalSnapshot

variable (parts : SnapshotParts lib json)

/-- The snapshot of parts that fit. -/
def logicalSnapshot : LogicalSnapshot lib json where
  principals := parts.principals
  notes := parts.notes
  noteRevisions := sortedRevisions parts.noteRevisions
  attachments := sortedAttachments parts.attachments
  noteRevisionAttachments := sortedReferences parts.attachmentReferences
  noteAcl := parts.noteAcl
  bibliographyItems := parts.items
  bibliographyImportSources := parts.sources
  bibliographyImportLinks := parts.links
  mathMacroSettings := parts.mathMacroSettings

/-- The parts refer to each other as they should. -/
structure Fits : Prop where
  notes : NotesFit parts.notes parts.noteAcl
  revisions : RevisionsFit parts.notes parts.noteRevisions
  library : LibraryFits parts.items parts.sources parts.links
  settings : SettingsFit parts.mathMacroSettings
  principals : DistinctPrincipals parts.principals
  references : parts.logicalSnapshot.Refers (Knows parts.principals)
  attachments : AttachmentsFit parts.notes parts.noteRevisions parts.attachments
    parts.attachmentReferences

variable {parts} {s : LogicalSnapshot lib json}

/-- The constructors accept parts exactly when they fit. -/
theorem snapshot_eq_ok_iff : parts.snapshot = .ok s ↔ parts.Fits ∧ s = parts.logicalSnapshot := by
  constructor
  · intro h
    obtain ⟨s₁, hnew, h⟩ := Except.bind_eq_ok.mp h
    obtain ⟨hnotes, hinclude⟩ := new_eq_ok.mp hnew
    obtain ⟨_, -, rfl⟩ := includeReferencedPrincipals_eq_ok_iff.mp hinclude
    obtain ⟨s₂, hhistory, h⟩ := Except.bind_eq_ok.mp h
    obtain ⟨hrevisions, hinclude⟩ := (withNoteRevisions_eq_ok hnotes.ids).mp hhistory
    obtain ⟨_, -, rfl⟩ := includeReferencedPrincipals_eq_ok_iff.mp hinclude
    obtain ⟨s₃, hbibliography, h⟩ := Except.bind_eq_ok.mp h
    obtain ⟨hlibrary, hinclude⟩ := withBibliographyData_eq_ok.mp hbibliography
    obtain ⟨_, -, rfl⟩ := includeReferencedPrincipals_eq_ok_iff.mp hinclude
    obtain ⟨s₄, hmacros, h⟩ := Except.bind_eq_ok.mp h
    obtain ⟨hsettings, hinclude⟩ := withMathMacroSettings_eq_ok.mp hmacros
    obtain ⟨_, -, rfl⟩ := includeReferencedPrincipals_eq_ok_iff.mp hinclude
    obtain ⟨s₅, hprincipals, h⟩ := Except.bind_eq_ok.mp h
    obtain ⟨hdistinct, hrefers, rfl⟩ := withPrincipals_eq_ok.mp hprincipals
    obtain ⟨hattachments, hcreators, hinclude⟩ := withAttachments_eq_ok.mp h
    have hids : parts.logicalSnapshot.Refers fun reference =>
        ∃ principal ∈ parts.principals, principal.reference.id = reference.id := by
      refine { hrefers.imp fun _ ⟨principal, hmem, heq⟩ => ⟨principal, hmem, heq ▸ rfl⟩ with
        attachments := fun attachment hmem => ?_ }
      exact List.mem_map.mp (hcreators attachment (Table.mem_orderBy.mp hmem))
    obtain ⟨hknows, rfl⟩ := (include_complete hdistinct hids).mp hinclude
    exact ⟨⟨hnotes, hrevisions, hlibrary, hsettings, hdistinct, hknows,
      hattachments.perm (.refl _) Table.orderBy_perm (.refl _) (.refl _)⟩, rfl⟩
  · rintro ⟨hfits, rfl⟩
    have hrefers := hfits.references
    have hstart : (start parts.notes parts.noteAcl : LogicalSnapshot lib json).Refers
        (Knows parts.principals) := by
      refine ⟨hrefers.notes, fun entry hentry => ?_, by simp [start], hrefers.noteAcl,
        by simp [start], by simp [start], by simp [start]⟩
      obtain ⟨note, hnote, rfl⟩ := List.mem_map.mp hentry
      exact hrefers.notes note hnote
    obtain ⟨ps₁, hinclude₁, hwithin₁⟩ :=
      hstart.include hfits.principals (by simp [start, Within])
    have hhistory : { start parts.notes parts.noteAcl with
        principals := ps₁
        noteRevisions := sortedRevisions parts.noteRevisions
        : LogicalSnapshot lib json }.Refers (Knows parts.principals) :=
      { hstart with noteRevisions := hrefers.noteRevisions }
    obtain ⟨ps₂, hinclude₂, hwithin₂⟩ := hhistory.include hfits.principals hwithin₁
    have hlibrary : { start parts.notes parts.noteAcl with
        principals := ps₂
        noteRevisions := sortedRevisions parts.noteRevisions
        bibliographyItems := parts.items
        bibliographyImportSources := parts.sources
        bibliographyImportLinks := parts.links
        : LogicalSnapshot lib json }.Refers (Knows parts.principals) :=
      { hhistory with items := hrefers.items, sources := hrefers.sources }
    obtain ⟨ps₃, hinclude₃, hwithin₃⟩ := hlibrary.include hfits.principals hwithin₂
    have hmacros : { start parts.notes parts.noteAcl with
        principals := ps₃
        noteRevisions := sortedRevisions parts.noteRevisions
        bibliographyItems := parts.items
        bibliographyImportSources := parts.sources
        bibliographyImportLinks := parts.links
        mathMacroSettings := parts.mathMacroSettings
        : LogicalSnapshot lib json }.Refers (Knows parts.principals) :=
      { hlibrary with mathMacroSettings := hrefers.mathMacroSettings }
    obtain ⟨ps₄, hinclude₄, -⟩ := hmacros.include hfits.principals hwithin₃
    have hcreators : ∀ attachment ∈ parts.attachments, attachment.metadata.createdBy.id ∈
        parts.principals.map fun principal => principal.reference.id := by
      intro attachment hattachment
      obtain ⟨principal, hprincipal, heq⟩ :=
        hrefers.attachments attachment (Table.mem_orderBy.mpr hattachment)
      exact List.mem_map.mpr ⟨principal, hprincipal, heq ▸ rfl⟩
    have hsorted := hfits.attachments.perm (.refl _)
      (Table.orderBy_perm : (sortedRevisions parts.noteRevisions).Perm _).symm (.refl _) (.refl _)
    have hknown : parts.logicalSnapshot.Refers fun reference =>
        ∃ principal ∈ parts.principals, principal.reference.id = reference.id :=
      hrefers.imp fun _ ⟨principal, hmem, heq⟩ => ⟨principal, hmem, heq ▸ rfl⟩
    exact Except.bind_eq_ok.mpr ⟨_, new_eq_ok.mpr ⟨hfits.notes, hinclude₁⟩,
      Except.bind_eq_ok.mpr ⟨_, (withNoteRevisions_eq_ok hfits.notes.ids).mpr
        ⟨hfits.revisions, hinclude₂⟩,
      Except.bind_eq_ok.mpr ⟨_, withBibliographyData_eq_ok.mpr ⟨hfits.library, hinclude₃⟩,
      Except.bind_eq_ok.mpr ⟨_, withMathMacroSettings_eq_ok.mpr ⟨hfits.settings, hinclude₄⟩,
      Except.bind_eq_ok.mpr ⟨_, withPrincipals_eq_ok.mpr ⟨hfits.principals,
        { hmacros with }, rfl⟩,
      withAttachments_eq_ok.mpr ⟨hsorted, hcreators,
        (include_complete hfits.principals hknown).mpr ⟨hrefers, rfl⟩⟩⟩⟩⟩⟩⟩

/-! ## The order of the parts -/

/-- The same principal, its identities in another order. -/
structure SamePrincipal (a b : Principal) : Prop where
  reference : a.reference = b.reference
  identities : a.identities.Perm b.identities

/-- The same parts, in another order. -/
structure Rearranges (parts parts' : SnapshotParts lib json) : Prop where
  notes : parts.notes.Perm parts'.notes
  noteAcl : parts.noteAcl.Perm parts'.noteAcl
  noteRevisions : parts.noteRevisions.Perm parts'.noteRevisions
  items : parts.items.Perm parts'.items
  sources : parts.sources.Perm parts'.sources
  links : parts.links.Perm parts'.links
  mathMacroSettings : parts.mathMacroSettings.Perm parts'.mathMacroSettings
  principals : List.Corresponds SamePrincipal parts.principals parts'.principals
  attachments : parts.attachments.Perm parts'.attachments
  attachmentReferences : parts.attachmentReferences.Perm parts'.attachmentReferences

variable {parts' : SnapshotParts lib json}

theorem Rearranges.symm (h : parts.Rearranges parts') : parts'.Rearranges parts where
  notes := h.notes.symm
  noteAcl := h.noteAcl.symm
  noteRevisions := h.noteRevisions.symm
  items := h.items.symm
  sources := h.sources.symm
  links := h.links.symm
  mathMacroSettings := h.mathMacroSettings.symm
  principals := h.principals.flip.imp fun _ _ hsame =>
    ⟨hsame.reference.symm, hsame.identities.symm⟩
  attachments := h.attachments.symm
  attachmentReferences := h.attachmentReferences.symm

theorem Rearranges.distinct (hr : parts.Rearranges parts')
    (h : DistinctPrincipals parts.principals) : DistinctPrincipals parts'.principals := by
  have hids := hr.principals.nodup_map (fun _ _ hsame =>
    congrArg PrincipalRef.id hsame.reference.symm) h.ids
  refine ⟨hids, (List.pairwise_map.mp hids).imp_of_mem fun {a b} ha hb hne identity hida hidb => ?_⟩
  obtain ⟨a', ha', hsame⟩ := hr.principals.exists_left ha
  obtain ⟨b', hb', hsame'⟩ := hr.principals.exists_left hb
  have heq := h.eq_of_mem ha' hb' (hsame.identities.mem_iff.mpr hida)
    (hsame'.identities.mem_iff.mpr hidb)
  rw [← hsame.reference, ← hsame'.reference, heq] at hne
  exact hne rfl

theorem Fits.rearrange (h : parts.Fits) (hr : parts.Rearranges parts') : parts'.Fits := by
  have hsorted : parts'.logicalSnapshot.noteRevisions = parts.logicalSnapshot.noteRevisions :=
    (sortedRevisions_congr h.revisions.keys hr.noteRevisions).symm
  have hattachments : (sortedAttachments parts.attachments).Perm
      (sortedAttachments parts'.attachments) :=
    (Table.orderBy_perm.trans hr.attachments).trans Table.orderBy_perm.symm
  have hknows : ∀ reference, Knows parts.principals reference →
      Knows parts'.principals reference := by
    rintro reference ⟨principal, hmem, rfl⟩
    obtain ⟨principal', hmem', hsame⟩ := hr.principals.exists_right hmem
    exact ⟨principal', hmem', hsame.reference.symm⟩
  have hrefers := h.references.imp hknows
  refine ⟨h.notes.perm hr.notes hr.noteAcl, h.revisions.perm hr.notes hr.noteRevisions,
    h.library.perm hr.items hr.sources hr.links, h.settings.perm hr.mathMacroSettings,
    hr.distinct h.principals, ?_, h.attachments.perm hr.notes hr.noteRevisions hr.attachments
      hr.attachmentReferences⟩
  exact ⟨fun note hnote => hrefers.notes note (hr.notes.mem_iff.mpr hnote),
    fun entry hentry => hrefers.noteRevisions entry (hsorted ▸ hentry),
    fun attachment hmem => hrefers.attachments attachment (hattachments.mem_iff.mpr hmem),
    fun entry hentry => hrefers.noteAcl entry (hr.noteAcl.mem_iff.mpr hentry),
    fun item hitem => hrefers.items item (hr.items.mem_iff.mpr hitem),
    fun source hsource => hrefers.sources source (hr.sources.mem_iff.mpr hsource),
    fun entry hentry => hrefers.mathMacroSettings entry (hr.mathMacroSettings.mem_iff.mpr hentry)⟩

/-- Whether the constructors accept parts does not depend on the order these come in. -/
theorem snapshot_accepts_rearranged (h : parts.Rearranges parts') :
    (∃ s, parts.snapshot = .ok s) ↔ ∃ s, parts'.snapshot = .ok s := by
  simp only [snapshot_eq_ok_iff, exists_and_left, exists_eq, and_true]
  exact ⟨fun hfits => hfits.rearrange h, fun hfits => hfits.rearrange h.symm⟩

open Database in
/-- Notes of Alice that are shared with Bob, with their history. -/
def sharedNotes (ids : List ℕ) : SnapshotParts asciiLibrary (sampleJsonCodec []) :=
  let note (id : ℕ) : Note := Note.create ⟨id⟩ alice.principal ⟨"A", "= A", []⟩ 100 .web
  { notes := ids.map note
    noteAcl := ids.map fun id => ⟨⟨id⟩, bob.principal, .read⟩
    noteRevisions := ids.map fun id => ⟨note id, alice.principal, .created⟩
    items := []
    sources := []
    links := []
    mathMacroSettings := []
    principals := [Principal.single alice.principal, Principal.single bob.principal]
    attachments := []
    attachmentReferences := [] }

theorem sharedNotes_rearranges {ids ids' : List ℕ} (h : ids.Perm ids') :
    (sharedNotes ids).Rearranges (sharedNotes ids') where
  notes := h.map _
  noteAcl := h.map _
  noteRevisions := h.map _
  items := .refl _
  sources := .refl _
  links := .refl _
  mathMacroSettings := .refl _
  principals := ⟨_, .refl _, List.forall₂_same.mpr fun _ _ => ⟨rfl, .refl _⟩⟩
  attachments := .refl _
  attachmentReferences := .refl _

/-- Notes 7, 3 and 5 are accepted, because they are in the order 3, 5, 7. -/
theorem snapshot_accepts_rearranged_sharedNotes :
    ∃ s, (sharedNotes [7, 3, 5]).snapshot = .ok s := by
  have hperm : [3, 5, 7].Perm [7, 3, 5] := by decide
  exact (snapshot_accepts_rearranged (sharedNotes_rearranges hperm)).mp
    (Except.exists_eq_ok (by decide +kernel))

end SnapshotParts

end Marginalis
