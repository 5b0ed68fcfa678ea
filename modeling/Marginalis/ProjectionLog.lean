import Marginalis.NoLostUpdate
import Marginalis.Projection

/-!
# The projection follows the log of changes

While no retention purge runs, the projection can be read off the log of changes alone.
`GrantedBefore` reads a principal's grant off the access changes, `Affects` says from it
whom a change affected, and the projection row of a principal for a note stands at the last
change that affected them (`LogComplete.greatest`). A statement records what it does to the
grants (`Statement.records`), and this is what one step needs (`Statement.logComplete`).
`sync_projection_complete` is the result for a run of note commands.
-/

namespace Marginalis

namespace Database

variable {db db' : Database} {p : PrincipalId} {n : NoteId} {c : DomainChange}

/-! ## Reading the log -/

/-- A change is about the principal's access to the note. -/
def IsAbout (c : DomainChange) (p : PrincipalId) (n : NoteId) : Prop :=
  c.affected = some p ∧ c.targetId = n.entityId

/-- The last change of the principal's access to the note before `k` is a grant. -/
def GrantedBefore (db : Database) (p : PrincipalId) (n : NoteId) (k : ℕ) : Prop :=
  ∃ g ∈ db.domainChanges, g.changeKind = .noteAccessGranted ∧ IsAbout g.toDomainChange p n ∧
    g.changeSequence < k ∧ ∀ r ∈ db.domainChanges, r.changeKind = .noteAccessRevoked →
      IsAbout r.toDomainChange p n → r.changeSequence < k → r.changeSequence < g.changeSequence

/-- The change affected the principal : it is about their access to the note, or a change
of the note while they owned it or held a grant. -/
def Affects (db : Database) (c : DomainChangeRow) (p : PrincipalId) (n : NoteId) : Prop :=
  c.targetId = n.entityId ∧
    (c.changeKind.isNoteChange = true ∧ (c.owner = p ∨ db.GrantedBefore p n c.changeSequence) ∨
      c.changeKind.isAccessChange = true ∧ c.affected = some p)

/-- The changes of the note that affected the principal. -/
def affectingSequences (db : Database) (p : PrincipalId) (n : NoteId) : Set ℕ :=
  {k | ∃ c ∈ db.domainChanges, db.Affects c p n ∧ c.changeSequence = k}

/-- Every recorded change has a sequence number that was given out. -/
def LogBounded (db : Database) : Prop :=
  ∀ c ∈ db.domainChanges, c.changeSequence ≤ db.lastChangeSequence

/-! ## Recording a change -/

theorem mem_recordChange (hbound : db.LogBounded) {x : DomainChangeRow} :
    x ∈ (db.recordChange c).domainChanges ↔ x ∈ db.domainChanges ∨ x = db.nextChange c := by
  rw [recordChange_domainChanges, Table.mem_upsert]
  constructor
  · rintro (h | ⟨h, -⟩)
    · exact Or.inr h
    · exact Or.inl h
  · rintro (h | h)
    · refine Or.inr ⟨h, fun he => ?_⟩
      have hle := hbound x h
      have he' : x.changeSequence = db.lastChangeSequence + 1 := he
      omega
    · exact Or.inl h

theorem logBounded_recordChange (hbound : db.LogBounded) : (db.recordChange c).LogBounded := by
  intro x hx
  rw [recordChange_lastChangeSequence]
  rcases (mem_recordChange hbound).mp hx with hx | rfl
  · have := hbound x hx
    omega
  · exact le_refl _

/-- A new change does not alter what was granted before it. -/
theorem grantedBefore_recordChange (hbound : db.LogBounded) {k : ℕ}
    (hk : k ≤ db.lastChangeSequence + 1) :
    (db.recordChange c).GrantedBefore p n k ↔ db.GrantedBefore p n k := by
  have hold : ∀ x ∈ (db.recordChange c).domainChanges, x.changeSequence < k →
      x ∈ db.domainChanges := by
    intro x hx hlt
    rcases (mem_recordChange hbound).mp hx with hx | rfl
    · exact hx
    · exact absurd hlt (by show ¬(db.lastChangeSequence + 1 < k); omega)
  constructor
  · rintro ⟨g, hg, hkind, habout, hlt, hlast⟩
    exact ⟨g, hold g hg hlt, hkind, habout, hlt,
      fun r hr => hlast r ((mem_recordChange hbound).mpr (Or.inl hr))⟩
  · rintro ⟨g, hg, hkind, habout, hlt, hlast⟩
    refine ⟨g, (mem_recordChange hbound).mpr (Or.inl hg), hkind, habout, hlt, ?_⟩
    intro r hr hkind' habout' hlt'
    exact hlast r (hold r hr hlt') hkind' habout' hlt'

/-- After a change, its own effect on the grant counts. -/
theorem grantedBefore_next (hbound : db.LogBounded) :
    (db.recordChange c).GrantedBefore p n (db.lastChangeSequence + 2) ↔
      c.changeKind = .noteAccessGranted ∧ IsAbout c p n ∨
        ¬(c.changeKind = .noteAccessRevoked ∧ IsAbout c p n) ∧
          db.GrantedBefore p n (db.lastChangeSequence + 1) := by
  have hnew : db.nextChange c ∈ (db.recordChange c).domainChanges :=
    (mem_recordChange hbound).mpr (Or.inr rfl)
  constructor
  · rintro ⟨g, hg, hkind, habout, hlt, hlast⟩
    rcases (mem_recordChange hbound).mp hg with hg | rfl
    · have hgle := hbound g hg
      right
      refine ⟨?_, g, hg, hkind, habout, by omega, ?_⟩
      · rintro ⟨hkind', habout'⟩
        have : db.lastChangeSequence + 1 < g.changeSequence :=
          hlast _ hnew hkind' habout' (by show db.lastChangeSequence + 1 < _; omega)
        omega
      · intro r hr hkind' habout' hlt'
        exact hlast r ((mem_recordChange hbound).mpr (Or.inl hr)) hkind' habout' (by omega)
    · exact Or.inl ⟨hkind, habout⟩
  · rintro (⟨hkind, habout⟩ | ⟨hrevoked, g, hg, hkind, habout, hlt, hlast⟩)
    · refine ⟨_, hnew, hkind, habout, by show db.lastChangeSequence + 1 < _; omega, ?_⟩
      intro r hr hkind' habout' hlt'
      rcases (mem_recordChange hbound).mp hr with hr | rfl
      · have := hbound r hr
        show r.changeSequence < db.lastChangeSequence + 1
        omega
      · exact absurd (hkind.symm.trans hkind') (by decide)
    · refine ⟨g, (mem_recordChange hbound).mpr (Or.inl hg), hkind, habout, by omega, ?_⟩
      intro r hr hkind' habout' hlt'
      rcases (mem_recordChange hbound).mp hr with hr | rfl
      · have := hbound r hr
        exact hlast r hr hkind' habout' (by omega)
      · exact absurd ⟨hkind', habout'⟩ hrevoked

theorem affects_recordChange (hbound : db.LogBounded) {x : DomainChangeRow}
    (hx : x ∈ db.domainChanges) : (db.recordChange c).Affects x p n ↔ db.Affects x p n := by
  have hle := hbound x hx
  unfold Affects
  rw [grantedBefore_recordChange hbound (by omega)]

theorem affects_nextChange (hbound : db.LogBounded) :
    (db.recordChange c).Affects (db.nextChange c) p n ↔ c.targetId = n.entityId ∧
      (c.changeKind.isNoteChange = true ∧
          (c.owner = p ∨ db.GrantedBefore p n (db.lastChangeSequence + 1)) ∨
        c.changeKind.isAccessChange = true ∧ c.affected = some p) := by
  unfold Affects
  rw [show (db.nextChange c).changeSequence = db.lastChangeSequence + 1 from rfl,
    grantedBefore_recordChange hbound (le_refl _)]
  rfl

/-- When the change affected the principal, it is the last one that did. -/
theorem isGreatest_of_affects (hbound : db.LogBounded)
    (h : (db.recordChange c).Affects (db.nextChange c) p n) :
    IsGreatest ((db.recordChange c).affectingSequences p n) (db.lastChangeSequence + 1) := by
  refine ⟨⟨_, (mem_recordChange hbound).mpr (Or.inr rfl), h, rfl⟩, ?_⟩
  rintro k ⟨x, hx, -, rfl⟩
  exact logBounded_recordChange hbound x hx

theorem affectingSequences_of_not_affects (hbound : db.LogBounded)
    (h : ¬(db.recordChange c).Affects (db.nextChange c) p n) :
    (db.recordChange c).affectingSequences p n = db.affectingSequences p n := by
  ext k
  constructor
  · rintro ⟨x, hx, haffects, rfl⟩
    rcases (mem_recordChange hbound).mp hx with hx | rfl
    · exact ⟨x, hx, (affects_recordChange hbound hx).mp haffects, rfl⟩
    · exact absurd haffects h
  · rintro ⟨x, hx, haffects, rfl⟩
    exact ⟨x, (mem_recordChange hbound).mpr (Or.inl hx),
      (affects_recordChange hbound hx).mpr haffects, rfl⟩

/-! ## What a statement records -/

/-- The principal holds a grant for the note. -/
def HasGrant (db : Database) (p : PrincipalId) (n : NoteId) : Prop :=
  ∃ row, db.noteAcl.find (n, p) = some row

/-- The database is the result of recording `c` after a write that `c` describes. -/
structure Recorded (db db' : Database) (c : DomainChange) : Prop where
  log : ∃ db₀, db.SameChanges db₀ ∧ db' = db₀.recordChange c
  target : c.changeKind.isNoteChange = true ∨ c.changeKind.isAccessChange = true →
    ∃ note, db'.notes.find ⟨c.targetId⟩ = some note ∧ note.creator = c.owner
  grant : ∀ p n, db'.HasGrant p n ↔
    c.changeKind = .noteAccessGranted ∧ IsAbout c p n ∨
      ¬(c.changeKind = .noteAccessRevoked ∧ IsAbout c p n) ∧ db.HasGrant p n

/-- A write to `notes` or to the library touches no grant. -/
theorem recorded_of_noteAcl {db₀ : Database} (hsame : db.SameChanges db₀)
    (hacl : db₀.noteAcl = db.noteAcl) (hkind : c.changeKind.isAccessChange = false)
    (htarget : c.changeKind.isNoteChange = true →
      ∃ note, db₀.notes.find ⟨c.targetId⟩ = some note ∧ note.creator = c.owner) :
    db.Recorded (db₀.recordChange c) c where
  log := ⟨db₀, hsame, rfl⟩
  target := by
    rintro (h | h)
    · exact htarget h
    · rw [hkind] at h
      cases h
  grant := by
    intro p n
    have hgrant : (db₀.recordChange c).HasGrant p n ↔ db.HasGrant p n := by
      unfold HasGrant
      rw [recordChange_noteAcl, hacl]
    rw [hgrant]
    have h1 : c.changeKind ≠ .noteAccessGranted := by
      intro h
      rw [h] at hkind
      cases hkind
    have h2 : c.changeKind ≠ .noteAccessRevoked := by
      intro h
      rw [h] at hkind
      cases hkind
    simp [h1, h2]

end Database

open Database

variable {db db' : Database} {p : PrincipalId} {n : NoteId}

theorem Statement.records (hgrants : db.GrantsConsistent) (h : Statement db db') :
    db.SameChanges db' ∧ db'.noteAcl = db.noteAcl ∨ ∃ c, db.Recorded db' c := by
  cases h with
  | @insertNote new _ hactive h =>
    obtain ⟨notes, -, -, hinsert, rfl⟩ := insertNoteRow_eq_ok.mp h
    refine Or.inr ⟨_, recorded_of_noteAcl ?_ ?_ rfl fun _ => ⟨new, ?_, rfl⟩⟩
    · exact ⟨rfl, rfl, rfl, rfl, rfl, rfl, rfl⟩
    · rfl
    · exact (Table.find_insert? hinsert _).trans (if_pos rfl)
  | @updateNote old new _ hold hcreator hactive h =>
    obtain ⟨-, rfl⟩ := updateNoteRow_eq_ok.mp h
    have hkind : (old.updateKind new).isAccessChange = false := by
      unfold NoteRow.updateKind
      split_ifs <;> rfl
    refine Or.inr ⟨_, recorded_of_noteAcl ?_ ?_ hkind fun _ => ⟨new, ?_, rfl⟩⟩
    · exact ⟨rfl, rfl, rfl, rfl, rfl, rfl, rfl⟩
    · rfl
    · exact (Table.find_upsert _).trans (if_pos rfl)
  | deleteAcl row hrow =>
    obtain ⟨note, hnote, -⟩ := hgrants _ _ _ (Table.find_of_mem hrow)
    refine Or.inr ⟨⟨note.creator, some row.principalId, .noteAccessRevoked, row.noteId.entityId,
      note.revision, note.updatedAt⟩, ⟨_, ?_, recordAccessChange_eq .noteAccessRevoked hnote⟩,
      fun _ => ⟨note, ?_, rfl⟩, fun p n => ?_⟩
    · exact ⟨rfl, rfl, rfl, rfl, rfl, rfl, rfl⟩
    · rw [(sameContent_deleteAclRow db row).notes]
      exact hnote
    · unfold HasGrant IsAbout
      rw [find_noteAcl_deleteAclRow]
      split_ifs with hk
      · obtain ⟨rfl, rfl⟩ := Prod.mk.inj hk
        simp
      · have hk' : ¬(row.principalId = p ∧ row.noteId.entityId = n.entityId) :=
          fun h => hk (Prod.ext (noteId_eq_of_entityId h.2) h.1)
        simp [hk']
  | @insertAcl row _ hactive h =>
    obtain ⟨note, acl, hnote, -, -, hinsert, rfl⟩ := insertAclRow_eq_ok.mp h
    refine Or.inr ⟨⟨note.creator, some row.principalId, .noteAccessGranted, row.noteId.entityId,
      note.revision, note.updatedAt⟩, ⟨_, ?_, recordAccessChange_eq .noteAccessGranted hnote⟩,
      fun _ => ⟨note, ?_, rfl⟩, fun p n => ?_⟩
    · exact ⟨rfl, rfl, rfl, rfl, rfl, rfl, rfl⟩
    · rw [(sameContent_recordAccessChange _ _ _).notes]
      exact hnote
    · unfold HasGrant IsAbout
      rw [noteAcl_recordAccessChange, Table.find_insert? hinsert]
      split_ifs with hk
      · obtain ⟨rfl, rfl⟩ := Prod.mk.inj hk
        simp
      · have hk' : ¬(row.principalId = p ∧ row.noteId.entityId = n.entityId) :=
          fun h => hk (Prod.ext (noteId_eq_of_entityId h.2) h.1)
        simp [hk']
  | insertItem h =>
    obtain ⟨items, -, rfl⟩ := insertBibliographyItemRow_eq_ok h
    refine Or.inr ⟨_, recorded_of_noteAcl ?_ ?_ rfl fun h => by cases h⟩
    · exact ⟨rfl, rfl, rfl, rfl, rfl, rfl, rfl⟩
    · rfl
  | updateItem hold h =>
    rcases updateBibliographyItemRow_eq_ok h with ⟨-, rfl⟩ | ⟨-, rfl⟩
    · exact Or.inl ⟨⟨rfl, rfl, rfl, rfl, rfl, rfl, rfl⟩, rfl⟩
    · refine Or.inr ⟨_, recorded_of_noteAcl ?_ ?_ rfl fun h => by cases h⟩
      · exact ⟨rfl, rfl, rfl, rfl, rfl, rfl, rfl⟩
      · rfl
  | deleteItem old hold =>
    refine Or.inr ⟨_, recorded_of_noteAcl ?_ ?_ rfl fun h => by cases h⟩
    · exact ⟨rfl, rfl, rfl, rfl, rfl, rfl, rfl⟩
    · rfl
  | content => exact Or.inl ⟨⟨rfl, rfl, rfl, rfl, rfl, rfl, rfl⟩, rfl⟩

/-! ## The invariant -/

/-- What holds of the projection and the log while nothing is purged. -/
structure Database.LogComplete (db : Database) : Prop where
  sync : db.SyncConsistent
  bounded : db.LogBounded
  target : ∀ c ∈ db.domainChanges,
    c.changeKind.isNoteChange = true ∨ c.changeKind.isAccessChange = true →
    ∃ note, db.notes.find ⟨c.targetId⟩ = some note ∧ note.creator = c.owner
  grant : ∀ p n, db.HasGrant p n ↔ db.GrantedBefore p n (db.lastChangeSequence + 1)
  covered : ∀ p n, db.CanAccess p n → ∃ row, db.noteSyncProjection.find (p, n) = some row
  accurate : ∀ p n row, db.noteSyncProjection.find (p, n) = some row → db.Accurate p n row.state
  greatest : ∀ p n row, db.noteSyncProjection.find (p, n) = some row →
    IsGreatest (db.affectingSequences p n) row.changeSequence

/-- The start of a run : any database nobody has written a note to. -/
theorem Database.logComplete_of_fresh (hnotes : db.notes = .empty) (hacl : db.noteAcl = .empty)
    (hchanges : db.domainChanges = .empty) (hprojection : db.noteSyncProjection = .empty)
    (hlatest : db.latestNoteChangeSequence = 0) : db.LogComplete := by
  have hgrant : ∀ p n, ¬db.HasGrant p n := by
    rintro p n ⟨row, hrow⟩
    rw [hacl] at hrow
    cases hrow
  have haccess : ∀ p n, ¬db.CanAccess p n := by
    intro p n
    rw [canAccess_iff, hnotes]
    rintro (⟨note, hnote, -⟩ | h)
    · cases hnote
    · exact hgrant p n h
  refine ⟨⟨?_, by omega, ?_, ?_⟩, ?_, ?_, ?_, ?_, ?_, ?_⟩
  · intro n p row hrow
    exact absurd ⟨row, hrow⟩ (hgrant p n)
  · simp [hprojection]
  · simp [hprojection]
  · intro c hc
    simp [hchanges] at hc
  · simp [hchanges]
  · intro p n
    refine iff_of_false (hgrant p n) ?_
    rintro ⟨g, hg, -⟩
    simp [hchanges] at hg
  · intro p n h
    exact absurd h (haccess p n)
  · intro p n row hrow
    rw [hprojection] at hrow
    cases hrow
  · intro p n row hrow
    rw [hprojection] at hrow
    cases hrow

/-- A recorded change concerns those the log says it affects. -/
theorem Database.Recorded.concerns_iff (hdb : db.LogComplete) {db₀ : Database} {c : DomainChange}
    (hrecorded : db.Recorded (db₀.recordChange c) c) (hsame : db.SameChanges db₀) :
    db₀.Concerns c p n ↔ (db₀.recordChange c).Affects (db₀.nextChange c) p n := by
  have hbound : db₀.LogBounded := by
    unfold LogBounded
    rw [hsame.domainChanges, hsame.lastChangeSequence]
    exact hdb.bounded
  have hgranted : db₀.GrantedBefore p n (db₀.lastChangeSequence + 1) ↔ db.HasGrant p n := by
    rw [hdb.grant p n, hsame.lastChangeSequence]
    unfold GrantedBefore
    rw [hsame.domainChanges]
  rw [affects_nextChange hbound, hgranted]
  unfold Concerns
  refine and_congr_right fun hid => or_congr_left (and_congr_right fun hnote => ?_)
  obtain ⟨note, hfind, howner⟩ := hrecorded.target (Or.inl hnote)
  rw [show (⟨c.targetId⟩ : NoteId) = n from noteId_eq_of_entityId hid, recordChange_notes] at hfind
  have hgrant : db₀.HasGrant p n ↔ db.HasGrant p n := by
    have h1 : c.changeKind ≠ .noteAccessGranted := by
      intro h
      rw [h] at hnote
      cases hnote
    have h2 : c.changeKind ≠ .noteAccessRevoked := by
      intro h
      rw [h] at hnote
      cases hnote
    have hgrant := hrecorded.grant p n
    simp only [h1, h2, false_and, not_false_eq_true, true_and, false_or] at hgrant
    exact hgrant
  rw [canAccess_iff, hfind]
  refine or_congr ?_ hgrant
  simp [howner]

theorem Database.Recorded.greatest (hdb : db.LogComplete) {c : DomainChange}
    (hrecorded : db.Recorded db' c) {row : ProjectionRow}
    (hrow : db'.noteSyncProjection.find (p, n) = some row) :
    IsGreatest (db'.affectingSequences p n) row.changeSequence := by
  obtain ⟨db₀, hsame, rfl⟩ := hrecorded.log
  have hbound : db₀.LogBounded := by
    unfold LogBounded
    rw [hsame.domainChanges, hsame.lastChangeSequence]
    exact hdb.bounded
  have hiff := hrecorded.concerns_iff hdb hsame (p := p) (n := n)
  by_cases hconcerns : db₀.Concerns c p n
  · rw [find_projection_of_concerns hconcerns] at hrow
    cases hrow
    exact isGreatest_of_affects hbound (hiff.mp hconcerns)
  · rw [find_projection_of_not_concerns hconcerns, hsame.noteSyncProjection] at hrow
    rw [affectingSequences_of_not_affects hbound fun h => hconcerns (hiff.mpr h)]
    have hset : db₀.affectingSequences p n = db.affectingSequences p n := by
      unfold affectingSequences Affects GrantedBefore
      rw [hsame.domainChanges]
    rw [hset]
    exact hdb.greatest p n row hrow

/-- One statement keeps the invariant. -/
theorem Statement.logComplete (hdb : db.LogComplete) (h : Statement db db') :
    db'.LogComplete := by
  have hgrants := hdb.sync.grants
  have hcovered : ∀ p n, db'.CanAccess p n →
      ∃ row, db'.noteSyncProjection.find (p, n) = some row := by
    intro p n haccess
    rcases h.effect (p := p) (n := n) hgrants with hstill | ⟨row, hrow, -⟩
    · obtain ⟨row, hrow⟩ := hdb.covered p n (hstill.access.mp haccess)
      exact ⟨row, hstill.row.trans hrow⟩
    · exact ⟨row, hrow⟩
  have haccurate : ∀ p n row, db'.noteSyncProjection.find (p, n) = some row →
      db'.Accurate p n row.state := by
    intro p n row hrow
    rcases h.effect (p := p) (n := n) hgrants with hstill | ⟨row', hrow', -, -, hstate⟩
    · exact hstill.accurate (hdb.accurate p n row (hstill.row ▸ hrow))
    · rw [hrow] at hrow'
      cases hrow'
      exact hstate
  rcases h.records hgrants with ⟨hsame, hacl⟩ | ⟨c, hrecorded⟩
  · refine ⟨h.syncConsistent hdb.sync, ?_, ?_, ?_, hcovered, haccurate, ?_⟩
    · unfold LogBounded
      rw [hsame.domainChanges, hsame.lastChangeSequence]
      exact hdb.bounded
    · intro x hx hkind
      rw [hsame.domainChanges] at hx
      obtain ⟨note, hnote, howner⟩ := hdb.target x hx hkind
      obtain ⟨note', hnote', hcreator⟩ := h.find_note hnote
      exact ⟨note', hnote', hcreator.trans howner⟩
    · intro p n
      unfold HasGrant GrantedBefore
      rw [hacl, hsame.domainChanges, hsame.lastChangeSequence]
      exact hdb.grant p n
    · intro p n row hrow
      have hset : db'.affectingSequences p n = db.affectingSequences p n := by
        unfold affectingSequences Affects GrantedBefore
        rw [hsame.domainChanges]
      rw [hset]
      exact hdb.greatest p n row (hsame.noteSyncProjection ▸ hrow)
  · obtain ⟨db₀, hsame, hdb'⟩ := hrecorded.log
    have hbound : db₀.LogBounded := by
      unfold LogBounded
      rw [hsame.domainChanges, hsame.lastChangeSequence]
      exact hdb.bounded
    refine ⟨h.syncConsistent hdb.sync, ?_, ?_, ?_, hcovered, haccurate, ?_⟩
    · rw [hdb']
      exact logBounded_recordChange hbound
    · intro x hx hkind
      rw [hdb', mem_recordChange hbound] at hx
      rcases hx with hx | rfl
      · rw [hsame.domainChanges] at hx
        obtain ⟨note, hnote, howner⟩ := hdb.target x hx hkind
        obtain ⟨note', hnote', hcreator⟩ := h.find_note hnote
        exact ⟨note', hnote', hcreator.trans howner⟩
      · exact hrecorded.target hkind
    · intro p n
      have hnext := grantedBefore_next (c := c) (p := p) (n := n) hbound
      rw [hrecorded.grant p n, hdb.grant p n, ← hsame.lastChangeSequence]
      have hold : db.GrantedBefore p n (db₀.lastChangeSequence + 1) ↔
          db₀.GrantedBefore p n (db₀.lastChangeSequence + 1) := by
        unfold GrantedBefore
        rw [hsame.domainChanges]
      rw [hold, ← hnext, hdb']
      rfl
    · intro p n row hrow
      exact hrecorded.greatest hdb hrow

theorem Statements.logComplete (hdb : db.LogComplete) (h : Statements db db') :
    db'.LogComplete := by
  induction h with
  | refl => exact hdb
  | tail _ hlast ih => exact hlast.logComplete ih

theorem NoteCommand.Step.statements {c : NoteCommand} (h : c.Step db db') : Statements db db' := by
  rcases step_cases h with h | ⟨-, rfl⟩
  · exact exec_statements h
  · exact .refl

/-- A projection row stays, at whatever change. -/
theorem Statements.find_projection (hdb : db.LogComplete) (h : Statements db db')
    (hrow : ∃ row, db.noteSyncProjection.find (p, n) = some row) :
    ∃ row, db'.noteSyncProjection.find (p, n) = some row := by
  induction h with
  | refl => exact hrow
  | @tail s t hs hlast ih =>
    obtain ⟨row, hrow⟩ := ih
    rcases hlast.effect (p := p) (n := n) (Statements.logComplete hdb hs).sync.grants with
      hstill | ⟨row', hrow', -⟩
    · exact ⟨row, hstill.row.trans hrow⟩
    · exact ⟨row', hrow'⟩

/-! ## Runs of note commands -/

theorem statements_of_run {moves : List (Move Database NoteCommand)}
    (h : Run NoteCommand.Step db moves db') : Statements db db' := by
  induction h with
  | nil => exact .refl
  | snoc _ hlast ih => exact ih.trans (NoteCommand.Step.statements hlast)

/-- After any run of note commands on a database without notes, a principal who had access to
a note at any moment of the run has exactly one projection row for it. It is an upsert exactly
when the note is not deleted and they have access now. A removal says which fails, and the row
stands at the last recorded change of the note that affected them. -/
theorem sync_projection_complete {db₀ : Database} {moves : List (Move Database NoteCommand)}
    (hnotes : db₀.notes = .empty) (hacl : db₀.noteAcl = .empty)
    (hchanges : db₀.domainChanges = .empty) (hprojection : db₀.noteSyncProjection = .empty)
    (hlatest : db₀.latestNoteChangeSequence = 0) (hrun : Run NoteCommand.Step db₀ moves db)
    (hever : db.CanAccess p n ∨ ∃ m ∈ moves, m.pre.CanAccess p n) :
    ∃! row, row ∈ db.noteSyncProjection ∧ row.principalId = p ∧ row.noteId = n ∧
      (row.state = .upsert ↔
        (∃ note, db.notes.find n = some note ∧ note.deletedAt = none) ∧ db.CanAccess p n) ∧
      (row.state = .remove .deleted → db.CanAccess p n ∧
        ∃ note, db.notes.find n = some note ∧ note.deletedAt ≠ none) ∧
      (row.state = .remove .accessRevoked → ¬db.CanAccess p n) ∧
      IsGreatest (db.affectingSequences p n) row.changeSequence := by
  have hstart := logComplete_of_fresh hnotes hacl hchanges hprojection hlatest
  have hdb := (statements_of_run hrun).logComplete hstart
  obtain ⟨row, hrow⟩ : ∃ row, db.noteSyncProjection.find (p, n) = some row := by
    rcases hever with haccess | ⟨m, hm, haccess⟩
    · exact hdb.covered p n haccess
    · obtain ⟨⟨before, hbefore⟩, hstep, ⟨after, hafter⟩⟩ := hrun.of_mem hm
      have hpre := (statements_of_run hbefore).logComplete hstart
      have hrest := (NoteCommand.Step.statements hstep).trans (statements_of_run hafter)
      exact Statements.find_projection hpre hrest (hpre.covered p n haccess)
  have hmem := Table.mem_of_find hrow
  obtain ⟨rfl, rfl⟩ := Prod.mk.inj (Table.key_of_find hrow)
  have haccurate := hdb.accurate _ _ row hrow
  refine ⟨row, ⟨hmem, rfl, rfl, haccurate.upsert_iff, ?_, ?_, hdb.greatest _ _ row hrow⟩, ?_⟩
  · intro hstate
    rw [hstate] at haccurate
    refine ⟨haccurate.1, ?_⟩
    rcases canAccess_iff.mp haccurate.1 with ⟨note, hnote, -⟩ | ⟨grant, hgrant⟩
    · exact ⟨note, hnote, haccurate.2 note hnote⟩
    · obtain ⟨note, hnote, -⟩ := hdb.sync.grants _ _ _ hgrant
      exact ⟨note, hnote, haccurate.2 note hnote⟩
  · intro hstate
    rw [hstate] at haccurate
    exact haccurate
  · rintro row' ⟨hmem', hp, hn, -⟩
    exact Table.eq_of_key_eq hmem' hmem (Prod.ext hp hn)

/-- Alice shares a note with Bob, takes the grant back and deletes the note. -/
def shareRevokeDelete : List NoteCommand :=
  [.create alice ⟨7⟩ ⟨"A", "= A", []⟩ ⟨[], [], []⟩ 100 .web,
    .replaceAcl alice ⟨7⟩ [⟨bob.principal, .read⟩] 1 200,
    .replaceAcl alice ⟨7⟩ [] 2 300,
    .softDelete alice ⟨7⟩ 3 400]

/-- The database after that run. -/
def shareRevokeDeleteResult : Database :=
  shareRevokeDelete.foldl (fun db c => db.commit (c.exec db)) twoPrincipals

/-- Bob keeps a projection row for the note, and it says why he lost it. -/
theorem sync_projection_complete_shareRevokeDelete :
    ∃! row, row ∈ shareRevokeDeleteResult.noteSyncProjection ∧
      row.principalId = bob.principalId ∧ row.noteId = ⟨7⟩ ∧
      (row.state = .upsert ↔ (∃ note, shareRevokeDeleteResult.notes.find ⟨7⟩ = some note ∧
        note.deletedAt = none) ∧ shareRevokeDeleteResult.CanAccess bob.principalId ⟨7⟩) ∧
      (row.state = .remove .deleted → shareRevokeDeleteResult.CanAccess bob.principalId ⟨7⟩ ∧
        ∃ note, shareRevokeDeleteResult.notes.find ⟨7⟩ = some note ∧ note.deletedAt ≠ none) ∧
      (row.state = .remove .accessRevoked →
        ¬shareRevokeDeleteResult.CanAccess bob.principalId ⟨7⟩) ∧
      IsGreatest (shareRevokeDeleteResult.affectingSequences bob.principalId ⟨7⟩)
        row.changeSequence := by
  refine sync_projection_complete rfl rfl rfl rfl rfl
    (Run.run_trace _ twoPrincipals shareRevokeDelete) (Or.inr ?_)
  refine ⟨_, List.mem_cons_of_mem _ (List.mem_cons_of_mem _ (List.mem_cons_self ..)), ?_⟩
  exact canAccess_iff.mpr (Or.inr ⟨⟨⟨7⟩, bob.principalId, .read⟩, by decide⟩)

end Marginalis
