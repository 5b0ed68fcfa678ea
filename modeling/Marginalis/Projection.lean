import Marginalis.Statements
import Mathlib.Order.Bounds.Basic

/-!
# The synchronization projection under a statement

For every principal and note, a statement either leaves the projection row and everything
the row speaks of alone (`Still`), or moves the row to a change it has just recorded, in a
state that is right in the new database (`Moved`). `Statement.effect` is that alternative.
It is what the trigger bodies come to, and what every result on synchronization is proved
from.
-/

namespace Marginalis

/-- The `CASE` of the projection triggers : the state a change of this kind moves a row to. -/
def ChangeKind.projectionState (kind : ChangeKind) : ProjectionState :=
  if kind = .noteDeleted then .remove .deleted
  else if kind = .noteAccessRevoked then .remove .accessRevoked
  else .upsert

namespace Database

variable {db db' : Database} {p : PrincipalId} {n : NoteId} {c : DomainChange}

/-! ## Access -/

/-- The principal is in `note_access` for the note. -/
def CanAccess (db : Database) (p : PrincipalId) (n : NoteId) : Prop := db.HasAccess p n 1

theorem mem_noteAccess {access : AccessRow} : access ∈ db.noteAccess ↔
    (∃ row ∈ db.notes, access = ⟨row.noteId, row.creator, 3⟩) ∨
      ∃ row ∈ db.noteAcl, access = ⟨row.noteId, row.principalId, row.permission.accessLevel⟩ := by
  simp only [noteAccess, List.mem_append, List.mem_map, Table.mem_def, eq_comm]

theorem one_le_accessLevel {access : AccessRow} (h : access ∈ db.noteAccess) :
    1 ≤ access.accessLevel := by
  rcases mem_noteAccess.mp h with ⟨row, -, rfl⟩ | ⟨row, -, rfl⟩
  · simp
  · cases row.permission <;> simp [NotePermission.accessLevel]

/-- Access is ownership or a grant. -/
theorem canAccess_iff : db.CanAccess p n ↔
    (∃ note, db.notes.find n = some note ∧ note.creator = p) ∨
      ∃ row, db.noteAcl.find (n, p) = some row := by
  constructor
  · rintro ⟨access, haccess, rfl, rfl, -⟩
    rcases mem_noteAccess.mp haccess with ⟨row, hrow, rfl⟩ | ⟨row, hrow, rfl⟩
    · exact Or.inl ⟨row, Table.find_of_mem hrow, rfl⟩
    · exact Or.inr ⟨row, Table.find_of_mem hrow⟩
  · rintro (⟨note, hnote, rfl⟩ | ⟨row, hrow⟩)
    · exact ⟨⟨note.noteId, note.creator, 3⟩,
        mem_noteAccess.mpr (Or.inl ⟨note, Table.mem_of_find hnote, rfl⟩),
        Table.key_of_find hnote, rfl, by simp⟩
    · have hkey := Table.key_of_find hrow
      simp only [Keyed.key, Prod.mk.injEq] at hkey
      have hmem := mem_noteAccess.mpr (Or.inr ⟨row, Table.mem_of_find hrow, rfl⟩)
      exact ⟨_, hmem, hkey.1, hkey.2, one_le_accessLevel hmem⟩

theorem canAccess_congr (hnotes : db'.notes.find n = db.notes.find n)
    (hacl : db'.noteAcl.find (n, p) = db.noteAcl.find (n, p)) :
    db'.CanAccess p n ↔ db.CanAccess p n := by
  rw [canAccess_iff, canAccess_iff, hnotes, hacl]

/-- The principal can read the note : it is not deleted, and shared with them or theirs. -/
def Visible (db : Database) (p : PrincipalId) (n : NoteId) : Prop :=
  (∃ note, db.notes.find n = some note ∧ note.deletedAt = none) ∧ db.CanAccess p n

/-! ## Recording a change -/

/-- The change moves the projection row of the principal for the note. -/
def Concerns (db : Database) (c : DomainChange) (p : PrincipalId) (n : NoteId) : Prop :=
  c.targetId = n.entityId ∧ (c.changeKind.isNoteChange = true ∧ db.CanAccess p n ∨
    c.changeKind.isAccessChange = true ∧ c.affected = some p)

theorem isAccessChange_of_isNoteChange {kind : ChangeKind} (h : kind.isNoteChange = true) :
    kind.isAccessChange = false := by
  cases kind <;> first | rfl | cases h

theorem mem_projectionRows {new : DomainChangeRow} {row : ProjectionRow} :
    row ∈ db.projectionRows new ↔
      row.changeSequence = new.changeSequence ∧ row.state = new.changeKind.projectionState ∧
        db.Concerns new.toDomainChange row.principalId row.noteId := by
  unfold projectionRows Concerns
  cases hnote : new.changeKind.isNoteChange with
  | true =>
    have haccess := isAccessChange_of_isNoteChange hnote
    have hstate : new.changeKind.projectionState =
        if new.changeKind = .noteDeleted then .remove .deleted else .upsert := by
      cases hkind : new.changeKind <;>
        simp_all [ChangeKind.isNoteChange, ChangeKind.projectionState]
    simp only [if_true, List.mem_map, List.mem_filter, decide_eq_true_eq, haccess, true_and,
      Bool.false_eq_true, false_and, or_false, hstate]
    constructor
    · rintro ⟨access, ⟨hmem, hid⟩, rfl⟩
      exact ⟨rfl, rfl, rfl, access, hmem, hid, rfl, one_le_accessLevel hmem⟩
    · rintro ⟨hseq, hst, hid, access, hmem, haid, hp, -⟩
      refine ⟨access, ⟨hmem, haid.trans (noteId_eq_of_entityId hid.symm)⟩, ?_⟩
      cases row
      simp_all
  | false =>
    cases haccess : new.changeKind.isAccessChange with
    | true =>
      have hstate : new.changeKind.projectionState =
          if new.changeKind = .noteAccessGranted then .upsert else .remove .accessRevoked := by
        cases hkind : new.changeKind <;>
          simp_all [ChangeKind.isAccessChange, ChangeKind.projectionState]
      simp only [Bool.false_eq_true, if_false, if_true, List.mem_map, Option.mem_toList,
        false_and, true_and, false_or, hstate]
      constructor
      · rintro ⟨principal, hp, rfl⟩
        exact ⟨rfl, rfl, rfl, hp⟩
      · rintro ⟨hseq, hst, hid, hp⟩
        refine ⟨_, hp, ?_⟩
        have := noteId_eq_of_entityId (a := ⟨new.targetId⟩) (b := row.noteId) hid
        cases row
        simp_all
    | false => simp

/-- The projection row after a change. -/
theorem find_projection_of_concerns (h : db.Concerns c p n) :
    (db.recordChange c).noteSyncProjection.find (p, n) =
      some ⟨db.lastChangeSequence + 1, p, n, c.changeKind.projectionState⟩ := by
  rw [recordChange_noteSyncProjection, Table.find_upsertAll fun k =>
    ⟨db.lastChangeSequence + 1, k.1, k.2, c.changeKind.projectionState⟩]
  · rw [if_pos]
    exact List.mem_map.mpr ⟨⟨db.lastChangeSequence + 1, p, n, c.changeKind.projectionState⟩,
      mem_projectionRows.mpr ⟨rfl, rfl, h⟩, rfl⟩
  · intro row hrow
    obtain ⟨hseq, hst, -⟩ := mem_projectionRows.mp hrow
    cases row
    simp_all [Keyed.key, nextChange]

theorem find_projection_of_not_concerns (h : ¬db.Concerns c p n) :
    (db.recordChange c).noteSyncProjection.find (p, n) = db.noteSyncProjection.find (p, n) := by
  rw [recordChange_noteSyncProjection, Table.find_upsertAll fun k =>
    ⟨db.lastChangeSequence + 1, k.1, k.2, c.changeKind.projectionState⟩]
  · rw [if_neg]
    intro hmem
    obtain ⟨row, hrow, hkey⟩ := List.mem_map.mp hmem
    obtain ⟨-, -, hconcerns⟩ := mem_projectionRows.mp hrow
    simp only [Keyed.key, Prod.mk.injEq] at hkey
    exact h (hkey.1 ▸ hkey.2 ▸ hconcerns)
  · intro row hrow
    obtain ⟨hseq, hst, -⟩ := mem_projectionRows.mp hrow
    cases row
    simp_all [Keyed.key, nextChange]

/-- A change of the library concerns nobody's notes. -/
theorem not_concerns_of_kind (hnote : c.changeKind.isNoteChange = false)
    (haccess : c.changeKind.isAccessChange = false) : ¬db.Concerns c p n := by
  rintro ⟨-, ⟨h, -⟩ | ⟨h, -⟩⟩
  · rw [hnote] at h
    cases h
  · rw [haccess] at h
    cases h

/-! ## The effect of a statement -/

/-- What a projection row claims, read off the database. -/
def Accurate (db : Database) (p : PrincipalId) (n : NoteId) : ProjectionState → Prop
  | .upsert => db.Visible p n
  | .remove .deleted =>
    db.CanAccess p n ∧ ∀ note, db.notes.find n = some note → note.deletedAt ≠ none
  | .remove .accessRevoked => ¬db.CanAccess p n

/-- Nothing the projection row of a principal for a note speaks of has changed. -/
structure Still (db db' : Database) (p : PrincipalId) (n : NoteId) : Prop where
  row : db'.noteSyncProjection.find (p, n) = db.noteSyncProjection.find (p, n)
  access : db'.CanAccess p n ↔ db.CanAccess p n
  note : db.CanAccess p n → db'.notes.find n = db.notes.find n

/-- The projection row of a principal for a note moved to a new change. -/
def Moved (db db' : Database) (p : PrincipalId) (n : NoteId) : Prop :=
  ∃ row, db'.noteSyncProjection.find (p, n) = some row ∧
    db.lastChangeSequence < row.changeSequence ∧
    row.changeSequence ≤ db'.latestNoteChangeSequence ∧ db'.Accurate p n row.state

/-- A grant is to a principal who does not own the note. -/
def GrantsConsistent (db : Database) : Prop :=
  ∀ n p row, db.noteAcl.find (n, p) = some row →
    ∃ note, db.notes.find n = some note ∧ note.creator ≠ p

/-- Recording a change that concerns the principal moves the row. -/
theorem moved_recordChange {db₀ : Database} (hlast : db₀.lastChangeSequence = db.lastChangeSequence)
    (h : db₀.Concerns c p n)
    (haccurate : (db₀.recordChange c).Accurate p n c.changeKind.projectionState) :
    db.Moved (db₀.recordChange c) p n := by
  refine ⟨_, find_projection_of_concerns h, ?_, ?_, haccurate⟩
  · show db.lastChangeSequence < db₀.lastChangeSequence + 1
    omega
  · have hkind : (c.changeKind.isNoteChange || c.changeKind.isAccessChange) = true := by
      rcases h.2 with ⟨hk, -⟩ | ⟨hk, -⟩ <;> simp [hk]
    simp [hkind]

/-- Recording a change that does not concern the principal, after a write to another note or
another grant, changes nothing for them. -/
theorem still_recordChange {db₀ : Database}
    (hrow : db₀.noteSyncProjection.find (p, n) = db.noteSyncProjection.find (p, n))
    (haccess : db₀.CanAccess p n ↔ db.CanAccess p n)
    (hnote : db.CanAccess p n → db₀.notes.find n = db.notes.find n) (h : ¬db₀.Concerns c p n) :
    db.Still (db₀.recordChange c) p n where
  row := (find_projection_of_not_concerns h).trans hrow
  access := (canAccess_congr rfl rfl).trans haccess
  note := hnote

theorem effect_insertNote {new : NoteRow} (hgrants : db.GrantsConsistent)
    (hactive : new.deletedAt = none) (h : db.insertNoteRow new = .ok db') :
    db.Still db' p n ∨ db.Moved db' p n := by
  obtain ⟨notes, -, -, hinsert, rfl⟩ := insertNoteRow_eq_ok.mp h
  have hnone : db.notes.find new.noteId = none := (Table.insert?_eq_some.mp hinsert).1
  have hfind : ∀ m, notes.find m = if new.noteId = m then some new else db.notes.find m :=
    Table.find_insert? hinsert
  by_cases hn : new.noteId = n
  · subst hn
    have hno : ¬db.CanAccess p new.noteId := by
      rw [canAccess_iff, hnone]
      rintro (⟨note, hnote, -⟩ | ⟨row, hrow⟩)
      · cases hnote
      · obtain ⟨note, hnote, -⟩ := hgrants _ _ _ hrow
        rw [hnone] at hnote
        cases hnote
    by_cases hp : new.creator = p
    · right
      have haccess : { db with notes := notes }.CanAccess p new.noteId :=
        canAccess_iff.mpr (Or.inl ⟨new, by simp [hfind], hp⟩)
      refine moved_recordChange rfl ⟨rfl, Or.inl ⟨rfl, haccess⟩⟩
        ⟨⟨new, by simp [hfind], hactive⟩, ?_⟩
      exact (canAccess_congr rfl rfl).mpr haccess
    · left
      have hno' : ¬{ db with notes := notes }.CanAccess p new.noteId := by
        rw [canAccess_iff]
        rintro (⟨note, hnote, hcreator⟩ | hrow)
        · rw [show notes.find new.noteId = some new by simp [hfind]] at hnote
          cases hnote
          exact hp hcreator
        · exact hno (canAccess_iff.mpr (Or.inr hrow))
      refine still_recordChange rfl (iff_of_false hno' hno) (fun h => absurd h hno) ?_
      rintro ⟨-, ⟨-, h⟩ | ⟨h, -⟩⟩
      · exact hno' h
      · cases h
  · left
    have hother : notes.find n = db.notes.find n := by simp [hfind, hn]
    refine still_recordChange rfl (canAccess_congr hother rfl) (fun _ => hother) ?_
    rintro ⟨hid, -⟩
    exact hn (noteId_eq_of_entityId hid)

theorem effect_updateNote {old new : NoteRow} (hold : db.notes.find new.noteId = some old)
    (hcreator : new.creator = old.creator) (hactive : old.deletedAt = none ∨ new.deletedAt = none)
    (h : db.updateNoteRow old new = .ok db') : db.Still db' p n ∨ db.Moved db' p n := by
  obtain ⟨-, rfl⟩ := updateNoteRow_eq_ok.mp h
  have hfind : ∀ m, (db.notes.upsert new).find m =
      if new.noteId = m then some new else db.notes.find m := Table.find_upsert
  by_cases hn : new.noteId = n
  · subst hn
    have haccess : { db with notes := db.notes.upsert new }.CanAccess p new.noteId ↔
        db.CanAccess p new.noteId := by
      rw [canAccess_iff, canAccess_iff, hfind, if_pos rfl, hold]
      simp [hcreator]
    by_cases hp : db.CanAccess p new.noteId
    · right
      have hkind : (old.updateKind new).isNoteChange = true := by
        unfold NoteRow.updateKind
        split_ifs <;> rfl
      refine moved_recordChange rfl ⟨rfl, Or.inl ⟨hkind, haccess.mpr hp⟩⟩ ?_
      have hp' := haccess.mpr hp
      show Accurate _ _ _ (old.updateKind new).projectionState
      unfold NoteRow.updateKind
      split_ifs with h1 h2 h3
      · refine ⟨(canAccess_congr rfl rfl).mpr hp', fun note hnote => ?_⟩
        rw [recordChange_notes, hfind, if_pos rfl] at hnote
        cases hnote
        exact h1.2
      · exact ⟨⟨new, by simp [hfind], h2.2⟩, (canAccess_congr rfl rfl).mpr hp'⟩
      all_goals
        refine ⟨⟨new, by simp [hfind], ?_⟩, (canAccess_congr rfl rfl).mpr hp'⟩
        by_contra hne
        rcases hactive with hold' | hnew
        · exact h1 ⟨hold', hne⟩
        · exact hne hnew
    · left
      refine still_recordChange rfl haccess (fun h => absurd h hp) ?_
      rintro ⟨-, ⟨-, h⟩ | ⟨h, -⟩⟩
      · exact hp (haccess.mp h)
      · unfold NoteRow.updateChange NoteRow.updateKind at h
        dsimp only at h
        split_ifs at h <;> cases h
  · left
    have hother : (db.notes.upsert new).find n = db.notes.find n := by simp [hfind, hn]
    refine still_recordChange rfl (canAccess_congr hother rfl) (fun _ => hother) ?_
    rintro ⟨hid, -⟩
    exact hn (noteId_eq_of_entityId hid)

/-- The change of access a trigger records, when the note is there. -/
theorem recordAccessChange_eq {row : AclRow} {note : NoteRow} (kind : ChangeKind)
    (h : db.notes.find row.noteId = some note) :
    db.recordAccessChange kind row = db.recordChange ⟨note.creator, some row.principalId, kind,
      row.noteId.entityId, note.revision, note.updatedAt⟩ := by
  simp [recordAccessChange, h]

/-- A deleted grant is gone, the other grants stay. -/
theorem find_noteAcl_deleteAclRow (db : Database) (row : AclRow) (k : NoteId × PrincipalId) :
    (db.deleteAclRow row).noteAcl.find k =
      if (row.noteId, row.principalId) = k then none else db.noteAcl.find k := by
  rw [noteAcl_deleteAclRow, Table.find_deleteWhere]
  cases hk : db.noteAcl.find k with
  | none => simp
  | some r =>
    have hkey : (r.noteId, r.principalId) = k := Table.key_of_find hk
    subst hkey
    by_cases he : (row.noteId, row.principalId) = (r.noteId, r.principalId)
    · rw [if_pos he]
      obtain ⟨hn, hp⟩ := Prod.mk.inj he
      simp [hn, hp]
    · rw [if_neg he]
      have hne : ¬(r.noteId = row.noteId ∧ r.principalId = row.principalId) :=
        fun h => he (Prod.ext h.1.symm h.2.symm)
      simp [Option.filter, hne]

theorem effect_deleteAcl {row : AclRow} (hgrants : db.GrantsConsistent) (hrow : row ∈ db.noteAcl) :
    db.Still (db.deleteAclRow row) p n ∨ db.Moved (db.deleteAclRow row) p n := by
  obtain ⟨note, hnote, hcreator⟩ := hgrants _ _ _ (Table.find_of_mem hrow)
  set db₀ : Database := { db with noteAcl := db.noteAcl.deleteWhere fun r =>
    r.noteId = row.noteId ∧ r.principalId = row.principalId } with hdb₀
  have hdelete : db.deleteAclRow row = db₀.recordAccessChange .noteAccessRevoked row := rfl
  rw [hdelete, recordAccessChange_eq .noteAccessRevoked (show db₀.notes.find row.noteId = some note
    from hnote)]
  have hfind : ∀ k, db₀.noteAcl.find k = if (row.noteId, row.principalId) = k then none
      else db.noteAcl.find k := fun k => find_noteAcl_deleteAclRow db row k ▸
    congrArg (fun t => Table.find t k) (noteAcl_deleteAclRow db row).symm
  by_cases hk : (row.noteId, row.principalId) = (n, p)
  · right
    obtain ⟨rfl, rfl⟩ := Prod.mk.inj hk
    refine moved_recordChange rfl ⟨rfl, Or.inr ⟨rfl, rfl⟩⟩ ?_
    show ¬CanAccess _ _ _
    rw [canAccess_iff]
    rintro (⟨note', hnote', hp⟩ | ⟨r, hr⟩)
    · rw [recordChange_notes, show db₀.notes.find row.noteId = some note from hnote] at hnote'
      cases hnote'
      exact hcreator hp
    · rw [recordChange_noteAcl, hfind, if_pos rfl] at hr
      cases hr
  · left
    have hother : db₀.noteAcl.find (n, p) = db.noteAcl.find (n, p) := by rw [hfind, if_neg hk]
    refine still_recordChange rfl (canAccess_congr rfl hother) (fun _ => rfl) ?_
    rintro ⟨hid, ⟨h, -⟩ | ⟨-, h⟩⟩
    · cases h
    · exact hk (Prod.ext (noteId_eq_of_entityId hid) (Option.some.inj h))

theorem effect_insertAcl {row : AclRow}
    (hactive : ∀ note, db.notes.find row.noteId = some note → note.deletedAt = none)
    (h : db.insertAclRow row = .ok db') : db.Still db' p n ∨ db.Moved db' p n := by
  obtain ⟨note, acl, hnote, hcreator, -, hinsert, rfl⟩ := insertAclRow_eq_ok.mp h
  have hfind : ∀ k, acl.find k = if (row.noteId, row.principalId) = k then some row
      else db.noteAcl.find k := Table.find_insert? hinsert
  set db₀ : Database := { db with noteAcl := acl }
  rw [recordAccessChange_eq .noteAccessGranted (show db₀.notes.find row.noteId = some note
    from hnote)]
  by_cases hk : (row.noteId, row.principalId) = (n, p)
  · right
    obtain ⟨rfl, rfl⟩ := Prod.mk.inj hk
    refine moved_recordChange rfl ⟨rfl, Or.inr ⟨rfl, rfl⟩⟩ ?_
    refine ⟨⟨note, hnote, hactive note hnote⟩, canAccess_iff.mpr (Or.inr ⟨row, ?_⟩)⟩
    rw [recordChange_noteAcl, hfind, if_pos rfl]
  · left
    have hother : db₀.noteAcl.find (n, p) = db.noteAcl.find (n, p) := by rw [hfind, if_neg hk]
    refine still_recordChange rfl (canAccess_congr rfl hother) (fun _ => rfl) ?_
    rintro ⟨hid, ⟨h, -⟩ | ⟨-, h⟩⟩
    · cases h
    · exact hk (Prod.ext (noteId_eq_of_entityId hid) (Option.some.inj h))

/-- A change of the library, after a write to its own tables, changes nothing here. -/
theorem still_of_library {db₀ : Database} (hnotes : db₀.notes = db.notes)
    (hacl : db₀.noteAcl = db.noteAcl) (hprojection : db₀.noteSyncProjection = db.noteSyncProjection)
    (hnote : c.changeKind.isNoteChange = false) (haccess : c.changeKind.isAccessChange = false) :
    db.Still (db₀.recordChange c) p n :=
  still_recordChange (by rw [hprojection]) (canAccess_congr (by rw [hnotes]) (by rw [hacl]))
    (fun _ => by rw [hnotes]) (not_concerns_of_kind hnote haccess)

end Database

open Database

variable {db db' : Database} {p : PrincipalId} {n : NoteId}

/-- A statement leaves the projection row of a principal for a note alone, with everything
it speaks of, or moves it to a new change in a state that is right. -/
theorem Statement.effect (hgrants : db.GrantsConsistent) (h : Statement db db') :
    db.Still db' p n ∨ db.Moved db' p n := by
  cases h with
  | insertNote hactive h => exact effect_insertNote hgrants hactive h
  | updateNote hold hcreator hactive h => exact effect_updateNote hold hcreator hactive h
  | deleteAcl row hrow => exact effect_deleteAcl hgrants hrow
  | insertAcl hactive h => exact effect_insertAcl hactive h
  | insertItem h =>
    obtain ⟨items, -, rfl⟩ := insertBibliographyItemRow_eq_ok h
    exact Or.inl (still_of_library rfl rfl rfl rfl rfl)
  | updateItem hold h =>
    rcases updateBibliographyItemRow_eq_ok h with ⟨-, rfl⟩ | ⟨-, rfl⟩
    · exact Or.inl ⟨rfl, canAccess_congr rfl rfl, fun _ => rfl⟩
    · exact Or.inl (still_of_library rfl rfl rfl rfl rfl)
  | deleteItem old hold => exact Or.inl (still_of_library rfl rfl rfl rfl rfl)
  | content => exact Or.inl ⟨rfl, canAccess_congr rfl rfl, fun _ => rfl⟩

/-- No statement takes a note away or gives it another owner. -/
theorem Statement.find_note (h : Statement db db') {note : NoteRow}
    (hnote : db.notes.find n = some note) :
    ∃ note', db'.notes.find n = some note' ∧ note'.creator = note.creator := by
  cases h with
  | insertNote hactive h =>
    obtain ⟨notes, -, -, hinsert, rfl⟩ := insertNoteRow_eq_ok.mp h
    refine ⟨note, ?_, rfl⟩
    rw [recordChange_notes, Table.find_insert? hinsert, if_neg]
    · exact hnote
    · rintro rfl
      rw [(Table.insert?_eq_some.mp hinsert).1] at hnote
      cases hnote
  | @updateNote old new _ hold hcreator hactive h =>
    obtain ⟨-, rfl⟩ := updateNoteRow_eq_ok.mp h
    rw [recordChange_notes, Table.find_upsert]
    split_ifs with hn
    · rw [show new.noteId = n from hn, hnote] at hold
      cases hold
      exact ⟨new, rfl, hcreator⟩
    · exact ⟨note, hnote, rfl⟩
  | deleteAcl row hrow => exact ⟨note, by rw [(sameContent_deleteAclRow db row).notes, hnote], rfl⟩
  | insertAcl hactive h => exact ⟨note, by rw [(sameContent_insertAclRow h).notes, hnote], rfl⟩
  | insertItem h =>
    obtain ⟨items, -, rfl⟩ := insertBibliographyItemRow_eq_ok h
    exact ⟨note, hnote, rfl⟩
  | updateItem hold h =>
    rcases updateBibliographyItemRow_eq_ok h with ⟨-, rfl⟩ | ⟨-, rfl⟩ <;> exact ⟨note, hnote, rfl⟩
  | deleteItem old hold => exact ⟨note, hnote, rfl⟩
  | content => exact ⟨note, hnote, rfl⟩

/-- A grant after a statement was there before, or is a new one to a non-owner. -/
theorem Statement.find_acl (h : Statement db db') {row : AclRow}
    (hrow : db'.noteAcl.find (n, p) = some row) :
    db.noteAcl.find (n, p) = some row ∨
      ∃ note, db.notes.find n = some note ∧ note.creator ≠ p := by
  cases h with
  | insertNote hactive h =>
    obtain ⟨notes, -, -, -, rfl⟩ := insertNoteRow_eq_ok.mp h
    exact Or.inl hrow
  | updateNote hold hcreator hactive h =>
    obtain ⟨-, rfl⟩ := updateNoteRow_eq_ok.mp h
    exact Or.inl hrow
  | deleteAcl row' hrow' =>
    rw [find_noteAcl_deleteAclRow] at hrow
    split_ifs at hrow
    exact Or.inl hrow
  | @insertAcl row' _ hactive h =>
    obtain ⟨note, acl, hnote, hcreator, -, hinsert, rfl⟩ := insertAclRow_eq_ok.mp h
    rw [noteAcl_recordAccessChange, Table.find_insert? hinsert] at hrow
    split_ifs at hrow with hk
    · obtain ⟨rfl, rfl⟩ := Prod.mk.inj hk
      exact Or.inr ⟨note, hnote, hcreator⟩
    · exact Or.inl hrow
  | insertItem h =>
    obtain ⟨items, -, rfl⟩ := insertBibliographyItemRow_eq_ok h
    exact Or.inl hrow
  | updateItem hold h =>
    rcases updateBibliographyItemRow_eq_ok h with ⟨-, rfl⟩ | ⟨-, rfl⟩ <;> exact Or.inl hrow
  | deleteItem old hold => exact Or.inl hrow
  | content => exact Or.inl hrow

theorem Statement.grantsConsistent (hgrants : db.GrantsConsistent) (h : Statement db db') :
    db'.GrantsConsistent := by
  intro n p row hrow
  obtain ⟨note, hnote, hcreator⟩ : ∃ note, db.notes.find n = some note ∧ note.creator ≠ p := by
    rcases h.find_acl hrow with hrow | hnote
    · exact hgrants n p row hrow
    · exact hnote
  obtain ⟨note', hnote', hcreator'⟩ := h.find_note hnote
  exact ⟨note', hnote', hcreator' ▸ hcreator⟩

/-- The sequence numbers of a statement : at most one more change, and the latest note
change is the old one or the new one. -/
theorem Statement.sequence (h : Statement db db') :
    db'.lastChangeSequence = db.lastChangeSequence ∧
        db'.latestNoteChangeSequence = db.latestNoteChangeSequence ∨
      db'.lastChangeSequence = db.lastChangeSequence + 1 ∧
        (db'.latestNoteChangeSequence = db.latestNoteChangeSequence ∨
          db'.latestNoteChangeSequence = db.lastChangeSequence + 1) := by
  rcases h.recordChange_cases with hsame | ⟨db₀, c, hsame, rfl⟩
  · exact Or.inl ⟨hsame.lastChangeSequence, hsame.latestNoteChangeSequence⟩
  · right
    rw [recordChange_lastChangeSequence, recordChange_latestNoteChangeSequence,
      hsame.lastChangeSequence, hsame.latestNoteChangeSequence]
    refine ⟨rfl, ?_⟩
    split_ifs
    · exact Or.inr rfl
    · exact Or.inl rfl

/-! ## What a projection row claims -/

theorem Database.Still.visible_iff (h : db.Still db' p n) : db'.Visible p n ↔ db.Visible p n := by
  unfold Visible
  rw [h.access]
  constructor
  · rintro ⟨hnote, haccess⟩
    exact ⟨h.note haccess ▸ hnote, haccess⟩
  · rintro ⟨hnote, haccess⟩
    exact ⟨(h.note haccess).symm ▸ hnote, haccess⟩

theorem Database.Still.accurate (h : db.Still db' p n) {state : ProjectionState}
    (hstate : db.Accurate p n state) : db'.Accurate p n state := by
  cases state with
  | upsert => exact h.visible_iff.mpr hstate
  | remove reason =>
    cases reason with
    | deleted =>
      obtain ⟨haccess, hdeleted⟩ := hstate
      exact ⟨h.access.mpr haccess, fun note hnote => hdeleted note (h.note haccess ▸ hnote)⟩
    | accessRevoked => exact fun haccess => hstate (h.access.mp haccess)

/-- An accurate row is an upsert exactly when the note is visible. -/
theorem Database.Accurate.upsert_iff {state : ProjectionState} (h : db.Accurate p n state) :
    state = .upsert ↔ db.Visible p n := by
  cases state with
  | upsert => exact iff_of_true rfl h
  | remove reason =>
    refine iff_of_false (by simp) ?_
    rintro ⟨⟨note, hnote, hactive⟩, haccess⟩
    cases reason with
    | deleted => exact h.2 note hnote hactive
    | accessRevoked => exact h haccess

/-- What holds of the projection at every moment, however old its rows may grow. -/
structure Database.SyncConsistent (db : Database) : Prop where
  grants : db.GrantsConsistent
  latest_le : db.latestNoteChangeSequence ≤ db.lastChangeSequence
  row_le : ∀ row ∈ db.noteSyncProjection, row.changeSequence ≤ db.latestNoteChangeSequence
  upsert_iff : ∀ row ∈ db.noteSyncProjection,
    row.state = .upsert ↔ db.Visible row.principalId row.noteId

theorem Database.syncConsistent_empty : empty.SyncConsistent where
  grants := by
    intro n p row hrow
    cases hrow
  latest_le := le_refl 0
  row_le := by simp [empty]
  upsert_iff := by simp [empty]

theorem Statement.syncConsistent (hdb : db.SyncConsistent) (h : Statement db db') :
    db'.SyncConsistent where
  grants := h.grantsConsistent hdb.grants
  latest_le := by
    have := hdb.latest_le
    rcases h.sequence with ⟨h1, h2⟩ | ⟨h1, h2 | h2⟩ <;> omega
  row_le := by
    intro row hrow
    have hfind : db'.noteSyncProjection.find (row.principalId, row.noteId) = some row :=
      Table.find_of_mem hrow
    rcases h.effect (p := row.principalId) (n := row.noteId) hdb.grants with hs |
      ⟨row', h1, -, h2, -⟩
    · have hle := hdb.row_le row (Table.mem_of_find (hs.row ▸ hfind))
      have := hdb.latest_le
      rcases h.sequence with ⟨h1, h2⟩ | ⟨h1, h2 | h2⟩ <;> omega
    · rw [hfind] at h1
      cases h1
      exact h2
  upsert_iff := by
    intro row hrow
    have hfind : db'.noteSyncProjection.find (row.principalId, row.noteId) = some row :=
      Table.find_of_mem hrow
    rcases h.effect (p := row.principalId) (n := row.noteId) hdb.grants with hs |
      ⟨row', h1, -, -, h2⟩
    · rw [hs.visible_iff]
      exact hdb.upsert_iff row (Table.mem_of_find (hs.row ▸ hfind))
    · rw [hfind] at h1
      cases h1
      exact h2.upsert_iff

end Marginalis
