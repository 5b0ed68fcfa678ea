import Marginalis.Noninterference
import Marginalis.ServiceRuns

/-!
# A patch is an update

`apply_note_patch` reads the note first and checks access and revision itself, and
`update_note` leaves both to the conditional update. In a sound database they agree : the note
that `apply_note_patch` goes on with is the one whose row the `UPDATE` matches
(`NotesSound.editableNote_eq_ok`), and both use cases then run the same checks on the same
inputs (`updateNote_eq_ok`, `applyNotePatch_eq_ok`).

A dry run stops before the update. That loses nothing : when the checks pass, the update can
fail on the clock alone (`NotesSound.exists_updateVisibleNote`). `patch_refines_update` puts
this together for every state the service and its maintenance reach.
-/

namespace Marginalis

open Database

/-! ## What a patch may change -/

namespace Database

variable {db db' : Database} {actor : Actor} {n : NoteId} {revision : ℕ} {note : Note}
  {row : NoteRow}

/-- The first row of `note_access` for a principal has the highest level. -/
theorem hasAccess_iff_head? {p : PrincipalId} {k : ℕ} (hk : k ≤ 3) : db.HasAccess p n k ↔
    ∃ access ∈ (db.accessRows p n).head?, k ≤ access.accessLevel := by
  rw [hasAccess_iff]
  refine ⟨fun ⟨access, haccess, hlevel⟩ => ?_, fun ⟨access, haccess, hlevel⟩ =>
    ⟨access, List.mem_of_head? haccess, hlevel⟩⟩
  rw [accessRows_eq] at haccess ⊢
  cases howned : (db.notes.find n).filter fun row => row.creator = p with
  | some row => exact ⟨⟨row.noteId, row.creator, 3⟩, by simp, hk⟩
  | none =>
    rw [howned] at haccess
    cases hgrant : db.noteAcl.find (n, p) with
    | none => simp [hgrant] at haccess
    | some grant =>
      simp only [hgrant, Option.toList_none, List.map_nil, List.nil_append, Option.toList_some,
        List.map_cons, List.mem_singleton] at haccess
      exact ⟨access, by simp [haccess], hlevel⟩

theorem accessLevel_of_accessFromLevel {level : ℕ} {access : NoteAccess}
    (h : accessFromLevel level = .ok access) : access.accessLevel = level := by
  unfold accessFromLevel at h
  split at h <;> cases h <;> rfl

/-- In a sound database the read of an accessible note succeeds. -/
theorem NotesSound.accessibleNote_eq_ok (hsound : db.NotesSound) {accessible : AccessibleNote} :
    db.accessibleNote actor n = .ok (some accessible) ↔
      (∃ row, db.notes.find n = some row ∧ row.deletedAt = none) ∧
      db.readNote n = .ok accessible.note ∧
      ∃ access ∈ (db.accessRows actor.principalId n).head?,
        accessFromLevel access.accessLevel = .ok accessible.access := by
  unfold accessibleNote
  cases hfind : db.notes.find n with
  | none => simp
  | some row =>
    have hmem := Table.mem_of_find hfind
    have hid : row.noteId = n := Table.key_of_find hfind
    obtain ⟨note, hnote⟩ := hsound.readNote hmem
    rw [hid] at hnote
    obtain ⟨row', details, hfind', hdetails, hdecoded⟩ := readNote_eq_ok.mp hnote
    rw [hfind, Option.some.injEq] at hfind'
    subst hfind'
    by_cases hdeleted : row.deletedAt = none
    · rw [Option.filter_some_pos (by simpa using hdeleted), hnote]
      dsimp only
      rw [hdetails]
      cases (db.accessRows actor.principalId n).head? with
      | none => simp
      | some access =>
        dsimp only
        rw [hdecoded, Except.bind_eq_ok]
        constructor
        · rintro ⟨level, hlevel, h⟩
          cases h
          exact ⟨⟨row, rfl, hdeleted⟩, rfl, access, rfl, hlevel⟩
        · rintro ⟨-, h, access', haccess', hlevel⟩
          cases haccess'
          cases h
          exact ⟨_, hlevel, rfl⟩
    · rw [Option.filter_some_neg (by simpa using hdeleted)]
      simp [hdeleted]

/-- `apply_note_patch` goes on with the note whose row the update matches. -/
theorem NotesSound.editableNote_eq_ok (hsound : db.NotesSound) :
    db.editableNote actor n revision = .ok note ↔ db.readNote n = .ok note ∧
      ∃ row, db.notes.find n = some row ∧ db.MutationGuard actor n revision .edit row := by
  have hlevels : db.HasAccess actor.principalId n NoteAccess.edit.accessLevel ↔ _ :=
    hasAccess_iff_head? (by decide)
  unfold editableNote
  rw [Except.bind_eq_ok]
  constructor
  · rintro ⟨_ | accessible, haccessible, h⟩
    · cases h
    rw [Except.mapError_eq_ok, hsound.accessibleNote_eq_ok] at haccessible
    obtain ⟨⟨row, hfind, hdeleted⟩, hread, access, haccess, hlevel⟩ := haccessible
    dsimp only at h
    split_ifs at h with hlow hrevision
    cases h
    obtain ⟨row', details, hfind', hdetails, hdecoded⟩ := readNote_eq_ok.mp hread
    rw [hfind, Option.some.injEq] at hfind'
    subst hfind'
    obtain ⟨-, -, -, -, -, -, hstored, -⟩ := noteFromRow_eq_ok.mp hdecoded
    rw [row_of_noteDetails hdetails] at hstored
    refine ⟨hread, row, hfind, ?_, hdeleted, hlevels.mpr ⟨access, haccess, ?_⟩⟩
    · rw [← hstored]
      exact not_not.mp hrevision
    · rw [← accessLevel_of_accessFromLevel hlevel]
      exact Nat.le_of_not_lt hlow
  · rintro ⟨hread, row, hfind, hrevision, hdeleted, haccess⟩
    obtain ⟨access, haccess, hlevel⟩ := hlevels.mp haccess
    obtain ⟨level, hok⟩ :=
      accessFromLevel_of_mem (mem_accessRows.mp (List.mem_of_head? haccess)).1
    obtain ⟨row', details, hfind', hdetails, hdecoded⟩ := readNote_eq_ok.mp hread
    rw [hfind, Option.some.injEq] at hfind'
    subst hfind'
    obtain ⟨-, -, -, -, -, -, hstored, -⟩ := noteFromRow_eq_ok.mp hdecoded
    rw [row_of_noteDetails hdetails] at hstored
    refine ⟨some ⟨note, level⟩, ?_, ?_⟩
    · rw [Except.mapError_eq_ok, hsound.accessibleNote_eq_ok]
      exact ⟨⟨row, hfind, hdeleted⟩, hread, access, haccess, hok⟩
    · dsimp only
      rw [if_neg, if_neg]
      · rfl
      · rw [hstored, hrevision]
        exact not_not.mpr rfl
      · rw [accessLevel_of_accessFromLevel hok]
        exact Nat.not_lt.mpr hlevel

theorem readVisibleNote_of_editableNote
    (h : db.editableNote actor n revision = .ok note) : db.readVisibleNote actor n = .ok note := by
  unfold editableNote at h
  obtain ⟨_ | accessible, haccessible, h⟩ := Except.bind_eq_ok.mp h
  · cases h
  dsimp only at h
  split_ifs at h
  cases h
  unfold readVisibleNote
  rw [haccessible]
  rfl

/-! ## The shared checks -/

variable {app : NoteApplication} {draft : NoteDraft} {policy : NoteWritePolicy} {now : ℤ}
  {validated : ValidatedNoteDraft} {advisories : List NoteAdvisoryDiagnostic} {saved : Note}

/-- The update matches a row only if the actor may edit the note at this revision. -/
theorem guard_of_updateVisibleNote {links : NoteLinks}
    (h : db.updateVisibleNote actor n revision draft links now = .ok (saved, db')) :
    ∃ row, db.notes.find n = some row ∧ db.MutationGuard actor n revision .edit row := by
  unfold updateVisibleNote updateVisibleNoteWithKind at h
  obtain ⟨_ | written, hwritten, h⟩ := Except.bind_eq_ok.mp h
  · cases h
  obtain ⟨row, hfind, hguard, -⟩ := guardedNoteUpdate_eq_ok.mp hwritten
  exact ⟨row, hfind, hguard⟩

theorem validatePatched_eq_ok {owner : PrincipalRef} {source : String} :
    db.validatePatched app actor n owner source policy = .ok (validated, advisories) ↔
      app.content.analyze source = .ok validated ∧
      db.validateNoteAttachmentReferences app actor n validated.attachmentQueries = .ok () ∧
      ∃ unknown,
        db.citationAdvisories app (.ok owner) validated.citationQueries = .ok unknown ∧
        rejectWarnings policy (validated.diagnostics ++ unknown) = .ok () ∧
        advisories = validated.diagnostics ++ unknown := by
  unfold validatePatched
  constructor
  · intro h
    obtain ⟨found, hfound, h⟩ := Except.bind_eq_ok.mp h
    obtain ⟨⟨⟩, hattachments, h⟩ := Except.bind_eq_ok.mp h
    obtain ⟨unknown, hunknown, h⟩ := Except.bind_eq_ok.mp h
    obtain ⟨⟨⟩, hreject, h⟩ := Except.bind_eq_ok.mp h
    cases h
    exact ⟨Except.mapError_eq_ok.mp hfound, hattachments, unknown, hunknown, hreject, rfl⟩
  · rintro ⟨hfound, hattachments, unknown, hunknown, hreject, rfl⟩
    refine Except.bind_eq_ok.mpr ⟨validated, Except.mapError_eq_ok.mpr hfound, ?_⟩
    refine Except.bind_eq_ok.mpr ⟨(), hattachments, ?_⟩
    refine Except.bind_eq_ok.mpr ⟨unknown, hunknown, ?_⟩
    exact Except.bind_eq_ok.mpr ⟨(), hreject, rfl⟩

/-- `update_note` as the checks of `apply_note_patch` and the update. -/
theorem NotesSound.updateNote_eq_ok (hsound : db.NotesSound) :
    db.updateNote app actor n draft revision policy now = .ok (saved, db') ↔
      ∃ note validated advisories, db.editableNote actor n revision = .ok note ∧
        db.validatePatched app actor n note.owner draft.source policy =
          .ok (validated, advisories) ∧
        db.updateVisibleNote actor n revision validated.draft validated.links now =
          .ok (saved, db') := by
  unfold updateNote
  constructor
  · intro h
    obtain ⟨validated, hfound, h⟩ := Except.bind_eq_ok.mp h
    obtain ⟨⟨⟩, hattachments, h⟩ := Except.bind_eq_ok.mp h
    obtain ⟨unknown, hunknown, h⟩ := Except.bind_eq_ok.mp h
    obtain ⟨⟨⟩, hreject, h⟩ := Except.bind_eq_ok.mp h
    rw [Except.mapError_eq_ok] at hfound h
    obtain ⟨row, hfind, hguard⟩ := guard_of_updateVisibleNote h
    obtain ⟨note, hnote⟩ := hsound.readNote (Table.mem_of_find hfind)
    rw [show row.noteId = n from Table.key_of_find hfind] at hnote
    have heditable := hsound.editableNote_eq_ok.mpr ⟨hnote, row, hfind, hguard⟩
    refine ⟨note, validated, validated.diagnostics ++ unknown, heditable, ?_, h⟩
    refine validatePatched_eq_ok.mpr ⟨hfound, hattachments, unknown, ?_, hreject, rfl⟩
    rw [readVisibleNote_of_editableNote heditable] at hunknown
    exact hunknown
  · rintro ⟨note, validated, advisories, heditable, hvalidated, h⟩
    obtain ⟨hfound, hattachments, unknown, hunknown, hreject, rfl⟩ :=
      validatePatched_eq_ok.mp hvalidated
    refine Except.bind_eq_ok.mpr ⟨validated, Except.mapError_eq_ok.mpr hfound, ?_⟩
    refine Except.bind_eq_ok.mpr ⟨(), hattachments, ?_⟩
    refine Except.bind_eq_ok.mpr ⟨unknown, ?_, ?_⟩
    · rw [readVisibleNote_of_editableNote heditable]
      exact hunknown
    · exact Except.bind_eq_ok.mpr ⟨(), hreject, Except.mapError_eq_ok.mpr h⟩

/-- What a run of `apply_note_patch` that succeeds has gone through. -/
theorem applyNotePatch_eq_ok {patch : String} {dryRun : Bool} {answer : NotePatchApplication} :
    db.applyNotePatch app actor n patch revision policy dryRun now = .ok (answer, db') ↔
      ∃ note outcome validated advisories, db.editableNote actor n revision = .ok note ∧
        Marginalis.applyNotePatch note.draft.source.toList patch.toList = .ok outcome ∧
        db.validatePatched app actor n note.owner (String.ofList outcome.source) policy =
          .ok (validated, advisories) ∧
        (answer.hunksApplied, answer.linesAdded, answer.linesRemoved, answer.advisories) =
          (outcome.hunksApplied, outcome.linesAdded, outcome.linesRemoved, advisories) ∧
        if dryRun = true then answer.note = none ∧ db' = db
        else ∃ saved, answer.note = some saved ∧
          db.updateVisibleNote actor n revision validated.draft validated.links now =
            .ok (saved, db') := by
  unfold applyNotePatch
  constructor
  · intro h
    obtain ⟨note, heditable, h⟩ := Except.bind_eq_ok.mp h
    obtain ⟨outcome, houtcome, h⟩ := Except.bind_eq_ok.mp h
    obtain ⟨⟨validated, advisories⟩, hvalidated, h⟩ := Except.bind_eq_ok.mp h
    rw [Except.mapError_eq_ok] at heditable houtcome hvalidated
    refine ⟨note, outcome, validated, advisories, heditable, houtcome, hvalidated, ?_⟩
    cases dryRun with
    | true =>
      cases h
      exact ⟨rfl, rfl, rfl⟩
    | false =>
      obtain ⟨⟨saved, updated⟩, hsaved, h⟩ := Except.bind_eq_ok.mp h
      cases h
      exact ⟨rfl, saved, rfl, Except.mapError_eq_ok.mp hsaved⟩
  · rintro ⟨note, outcome, validated, advisories, heditable, houtcome, hvalidated, hanswer, h⟩
    refine Except.bind_eq_ok.mpr ⟨note, Except.mapError_eq_ok.mpr heditable, ?_⟩
    refine Except.bind_eq_ok.mpr ⟨outcome, Except.mapError_eq_ok.mpr houtcome, ?_⟩
    refine Except.bind_eq_ok.mpr ⟨(validated, advisories), Except.mapError_eq_ok.mpr hvalidated, ?_⟩
    obtain ⟨saved?, hunks, added, removed, found⟩ := answer
    cases hanswer
    cases dryRun with
    | true =>
      obtain ⟨rfl, rfl⟩ := h
      rfl
    | false =>
      obtain ⟨saved, rfl, h⟩ := h
      exact Except.bind_eq_ok.mpr ⟨(saved, db'), Except.mapError_eq_ok.mpr h, rfl⟩

/-! ## The update does not fail later -/

theorem nodup_attachmentIds (queries : List NoteAttachmentQuery) :
    (attachmentIds queries).Nodup :=
  Table.nodup_destutter Table.pairwise_orderBy fun a b h => by
    cases a
    cases b
    cases h
    rfl

theorem mem_of_mem_attachmentIds {queries : List NoteAttachmentQuery} {id : AttachmentId}
    (h : id ∈ attachmentIds queries) : ∃ query ∈ queries, query.attachmentId = id := by
  have hsorted := (List.destutter_sublist _ _).subset h
  exact List.mem_map.mp (Table.mem_orderBy.mp hsorted)

/-- The list of the images of a note names images of the note. -/
theorem exists_of_listNoteAttachments {lib : AttachmentLibrary}
    {metadata : List AttachmentMetadata} {entry : AttachmentMetadata}
    (h : db.listNoteAttachments lib actor n = .ok (some metadata)) (hentry : entry ∈ metadata) :
    ∃ attachment, db.noteAttachments.find entry.attachmentId = some attachment ∧
      attachment.noteId = n := by
  unfold listNoteAttachments at h
  split at h
  · cases h
  obtain ⟨attachments, hattachments, h⟩ := Except.bind_eq_ok.mp h
  cases h
  obtain ⟨⟨row, identity⟩, hrow, hdecoded⟩ := Except.exists_of_mem_mapM hattachments hentry
  obtain ⟨row', hrow', hjoined⟩ := List.mem_filterMap.mp hrow
  obtain ⟨identity', -, heq⟩ := Option.map_eq_some_iff.mp hjoined
  cases heq
  have hstored := Table.mem_select.mp (Table.mem_orderBy.mp hrow')
  have hid : entry.attachmentId = row.attachmentId := by
    rw [metadataFromRow, Except.mapError_eq_ok, AttachmentMetadata.new] at hdecoded
    dsimp only at hdecoded
    split_ifs at hdecoded
    cases hdecoded
    rfl
  exact ⟨row, hid ▸ Table.find_of_mem hstored.1, by simpa using hstored.2⟩

/-- The images that a validated source names are stored by the note. -/
theorem exists_attachment_of_validate {queries : List NoteAttachmentQuery}
    (h : db.validateNoteAttachmentReferences app actor n queries = .ok ()) :
    ∀ query ∈ queries, ∃ attachment,
      db.noteAttachments.find query.attachmentId = some attachment ∧ attachment.noteId = n := by
  intro query hquery
  unfold validateNoteAttachmentReferences at h
  rw [if_neg (List.ne_nil_of_mem hquery)] at h
  obtain ⟨_ | metadata, hmetadata, h⟩ := Except.bind_eq_ok.mp h
  · cases h
  rw [Except.mapError_eq_ok] at hmetadata
  dsimp only at h
  split_ifs at h with hmissing
  have hstored : ∃ entry ∈ metadata, entry.attachmentId = query.attachmentId := by
    by_contra hno
    exact absurd (List.mem_filter.mpr ⟨hquery, by simpa using hno⟩)
      (hmissing ▸ List.not_mem_nil)
  obtain ⟨entry, hentry, hid⟩ := hstored
  exact hid ▸ exists_of_listNoteAttachments hmetadata hentry

/-- When the checks pass, the update fails on the clock alone. -/
theorem NotesSound.exists_updateVisibleNote (hsound : db.NotesSound)
    (heditable : db.editableNote actor n revision = .ok note) {source : String}
    (hvalidated : db.validatePatched app actor n note.owner source policy =
      .ok (validated, advisories))
    (hclock : ∀ row, db.notes.find n = some row → row.updatedAt ≤ now) :
    ∃ result, db.updateVisibleNote actor n revision validated.draft validated.links now =
      .ok result := by
  obtain ⟨-, row, hfind, hguard⟩ := hsound.editableNote_eq_ok.mp heditable
  obtain ⟨-, hattachments, -⟩ := validatePatched_eq_ok.mp hvalidated
  have hvalid := hsound.valid row (Table.mem_of_find hfind)
  have hnow := hclock row hfind
  set c : NoteCommand := .update actor n revision validated.draft validated.links now
  have hprepared : c.Prepared db row := by
    refine ⟨fun links hlinks => ?_, fun entries hentries => by cases hentries⟩
    cases hlinks
    refine ⟨nodup_attachmentIds _, fun id hid => ?_⟩
    obtain ⟨query, hquery, rfl⟩ := mem_of_mem_attachmentIds hid
    exact exists_attachment_of_validate hattachments query hquery
  have hfits : c.TimesFit row := by
    refine ⟨hvalid.updated.trans hnow, fun _ review hreview => ?_⟩
    obtain ⟨-, -, -, -, hreviewed, -⟩ := hvalid.check.2 review hreview
    exact hreviewed.trans hnow
  obtain ⟨db', h⟩ := (hsound.exec_ok_iff (c := c) hfind hguard hprepared).mpr hfits
  obtain ⟨result, hresult, -⟩ := Except.map_eq_ok.mp (Except.mapError_eq_ok.mp h)
  exact ⟨result, hresult⟩

end Database

/-! ## The refinement -/

/-- How `apply_note_patch` and `update_note` answer in a state. -/
structure PatchRefinesUpdate (app : NoteApplication) (db : Database) (actor : Actor)
    (noteId : NoteId) (patch : String) (revision : ℕ) (policy : NoteWritePolicy) (now : ℤ) :
    Prop where
  /-- A dry run changes nothing. -/
  dry_unchanged : ∀ answer db',
    db.applyNotePatch app actor noteId patch revision policy true now = .ok (answer, db') → db' = db
  /-- It succeeds when the real run does. -/
  dry_iff : (∃ result,
      db.applyNotePatch app actor noteId patch revision policy true now = .ok result) ↔
    ∃ result, db.applyNotePatch app actor noteId patch revision policy false now = .ok result
  /-- It gives the same counts and advisories. -/
  dry_answer : ∀ dry unchanged real db',
    db.applyNotePatch app actor noteId patch revision policy true now = .ok (dry, unchanged) →
    db.applyNotePatch app actor noteId patch revision policy false now = .ok (real, db') →
      dry = { real with note := none }
  /-- The real run is the update with the patched source. -/
  real_iff : ∀ row outcome draft, db.notes.find noteId = some row →
    applyNotePatch row.source.toList patch.toList = .ok outcome →
    draft.source = String.ofList outcome.source → ∀ saved db',
      (∃ answer, answer.note = some saved ∧
        db.applyNotePatch app actor noteId patch revision policy false now = .ok (answer, db')) ↔
      db.updateNote app actor noteId draft revision policy now = .ok (saved, db')
  /-- It answers with the note it saved. -/
  real_note : ∀ answer db',
    db.applyNotePatch app actor noteId patch revision policy false now = .ok (answer, db') →
      ∃ saved, answer.note = some saved

namespace Database

variable {db db' : Database} {actor : Actor} {n : NoteId} {revision : ℕ} {note : Note}
  {app : NoteApplication} {policy : NoteWritePolicy} {now : ℤ}

/-- The source that is patched is the stored one. -/
theorem source_of_readNote {row : NoteRow} (hfind : db.notes.find n = some row)
    (h : db.readNote n = .ok note) : note.draft.source = row.source := by
  obtain ⟨row', details, hfind', hdetails, hdecoded⟩ := readNote_eq_ok.mp h
  rw [hfind, Option.some.injEq] at hfind'
  subst hfind'
  obtain ⟨-, -, -, hdraft, -⟩ := noteFromRow_eq_ok.mp hdecoded
  rw [hdraft, row_of_noteDetails hdetails]

theorem NotesSound.patchRefinesUpdate (hsound : db.NotesSound) (app : NoteApplication)
    (actor : Actor) (n : NoteId) (patch : String) (revision : ℕ) (policy : NoteWritePolicy)
    (hclock : ∀ row, db.notes.find n = some row → row.updatedAt ≤ now) :
    PatchRefinesUpdate app db actor n patch revision policy now where
  dry_unchanged answer db' h := by
    obtain ⟨note, outcome, validated, advisories, -, -, -, -, -, hsame⟩ := applyNotePatch_eq_ok.mp h
    exact hsame
  dry_iff := by
    constructor
    · rintro ⟨⟨dry, unchanged⟩, h⟩
      obtain ⟨note, outcome, validated, advisories, heditable, houtcome, hvalidated, -, -⟩ :=
        applyNotePatch_eq_ok.mp h
      obtain ⟨⟨saved, db'⟩, hsaved⟩ :=
        hsound.exists_updateVisibleNote heditable hvalidated hclock
      refine ⟨(⟨some saved, outcome.hunksApplied, outcome.linesAdded, outcome.linesRemoved,
        advisories⟩, db'), applyNotePatch_eq_ok.mpr ?_⟩
      exact ⟨note, outcome, validated, advisories, heditable, houtcome, hvalidated, rfl, saved, rfl,
        hsaved⟩
    · rintro ⟨⟨real, db'⟩, h⟩
      obtain ⟨note, outcome, validated, advisories, heditable, houtcome, hvalidated, -, -⟩ :=
        applyNotePatch_eq_ok.mp h
      refine ⟨(⟨none, outcome.hunksApplied, outcome.linesAdded, outcome.linesRemoved,
        advisories⟩, db), applyNotePatch_eq_ok.mpr ?_⟩
      exact ⟨note, outcome, validated, advisories, heditable, houtcome, hvalidated, rfl, rfl, rfl⟩
  dry_answer dry unchanged real db' hdry hreal := by
    obtain ⟨note, outcome, validated, advisories, heditable, houtcome, hvalidated, hanswer, hnone,
      -⟩ := applyNotePatch_eq_ok.mp hdry
    obtain ⟨note', outcome', validated', advisories', heditable', houtcome', hvalidated', hanswer',
      -⟩ := applyNotePatch_eq_ok.mp hreal
    rw [heditable] at heditable'
    cases heditable'
    rw [houtcome] at houtcome'
    cases houtcome'
    rw [hvalidated] at hvalidated'
    cases hvalidated'
    obtain ⟨dryNote, hunks, added, removed, found⟩ := dry
    cases hnone
    rw [← hanswer'] at hanswer
    cases hanswer
    rfl
  real_iff row outcome draft hfind houtcome hsource saved db' := by
    rw [hsound.updateNote_eq_ok]
    constructor
    · rintro ⟨answer, hanswer, h⟩
      obtain ⟨note, outcome', validated, advisories, heditable, houtcome', hvalidated, -, saved',
        hsaved, h⟩ := applyNotePatch_eq_ok.mp h
      rw [hanswer, Option.some.injEq] at hsaved
      subst hsaved
      have hread := (hsound.editableNote_eq_ok.mp heditable).1
      rw [source_of_readNote hfind hread, houtcome] at houtcome'
      cases houtcome'
      exact ⟨note, validated, advisories, heditable, hsource ▸ hvalidated, h⟩
    · rintro ⟨note, validated, advisories, heditable, hvalidated, h⟩
      have hread := (hsound.editableNote_eq_ok.mp heditable).1
      rw [← source_of_readNote hfind hread] at houtcome
      refine ⟨⟨some saved, outcome.hunksApplied, outcome.linesAdded, outcome.linesRemoved,
        advisories⟩, rfl, applyNotePatch_eq_ok.mpr ?_⟩
      exact ⟨note, outcome, validated, advisories, heditable, houtcome, hsource ▸ hvalidated, rfl,
        saved, rfl, h⟩
  real_note answer db' h := by
    obtain ⟨note, outcome, validated, advisories, -, -, -, -, saved, hsaved, -⟩ :=
      applyNotePatch_eq_ok.mp h
    exact ⟨saved, hsaved⟩

end Database

/-- In every reachable state, with a clock reading not before the stored times of the note, a
patch request is an update : its dry run succeeds when it does, with the same counts and
advisories, and it succeeds when `update_note` with the patched source does, with the same state
after it. -/
theorem patch_refines_update {service : ServiceLibrary} {μ : Type*} {db : Database}
    {moves : List (Move Database (DatabaseOperation service μ))}
    (hrun : Run DatabaseOperation.Step empty moves db) (app : NoteApplication) (actor : Actor)
    (noteId : NoteId) (patch : String) (revision : ℕ) (policy : NoteWritePolicy) (now : ℤ)
    (hclock : ∀ row, db.notes.find noteId = some row → row.updatedAt ≤ now) :
    PatchRefinesUpdate app db actor noteId patch revision policy now :=
  (notesComplete_of_run hrun).notes.patchRefinesUpdate app actor noteId patch revision policy hclock

/-! ## A patch of the reviewed note -/

/-- The service has created and reviewed the note of `createAndReview`. -/
def reviewedNoteRun : List (DatabaseOperation illustratedService Unit) :=
  createAndReview.map DatabaseOperation.store

/-- A line is appended to a source whose last line has no end. -/
def appendLine : String :=
  "--- a/note.adoc\n+++ b/note.adoc\n@@ -1 +1,2 @@\n" ++
    "-= A\n\\ No newline at end of file\n+= A\n+B\n"

/-- The database after that run. -/
def patchedNote : Database := reviewedNoteRun.foldl DatabaseOperation.apply empty

/-- The owner patches her note, dry or not. -/
theorem patch_refines_update_appendLine :
    PatchRefinesUpdate sampleApplication patchedNote alice ⟨7⟩ appendLine 2 .rejectWarnings 300 ∧
      ∃ result, patchedNote.applyNotePatch sampleApplication alice ⟨7⟩ appendLine 2 .rejectWarnings
        true 300 = .ok result := by
  have hrun : Run DatabaseOperation.Step empty _ patchedNote :=
    Run.run_trace DatabaseOperation.apply empty reviewedNoteRun
  refine ⟨patch_refines_update hrun _ _ _ _ _ _ _ fun row hrow => ?_, ?_⟩
  · have hfind : patchedNote.notes.find ⟨7⟩ = some reviewedRow := by decide +kernel
    rw [hfind, Option.some.injEq] at hrow
    subst hrow
    decide
  · refine Except.exists_eq_ok ?_
    decide +kernel

end Marginalis
