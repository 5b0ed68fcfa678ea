import Marginalis.NoteRows
import Marginalis.Projection
import Marginalis.Sync
import Mathlib.Data.List.Induction

/-!
# A page keeps the client synchronized

A client applies the entries of its pages to the notes it holds. For every note it has been
listed, either its copy is the current one or the projection has a row above its position,
which a later page will show (`Database.Synced`). A page moves the position over rows it
shows, so it keeps that (`snapshotPage_synced`, `changesPage_synced`), and at the last page of
the changes phase no row is left and every copy is current.

Two facts about the database stand behind it : the rows of one principal stand at different
changes (`ProjectionKeys`), so that a page cut between two of them loses neither, and the owner
of a note has a primary identity (`OwnersKnown`), without which the join would drop the note.
-/

namespace Marginalis

open Database

instance : Keyed Note NoteId := ⟨fun note => note.noteId⟩

/-- What a client does with an entry. -/
def NoteSyncEntry.apply (held : Table Note) : NoteSyncEntry → Table Note
  | upsert note => held.upsert note
  | remove noteId _ => held.deleteWhere fun note => note.noteId = noteId

/-- How far the next page reaches : the changes below are behind the client. -/
def CursorState.position (state : CursorState) : ℕ :=
  match state.phase with
  | .snapshot => state.highWatermark
  | .changes => state.afterSequence

/-- The note was listed, if it was there to list. -/
def CursorState.Covers (state : CursorState) (n : NoteId) : Prop :=
  match state.phase with
  | .snapshot => ∃ after ∈ state.afterNoteId, n.entityId ≤ after.entityId
  | .changes => True

namespace Database

variable {db db' : Database} {p : PrincipalId} {n : NoteId} {held : Table Note}

/-- The copy of a note is the note as the principal can see it now. -/
def Current (db : Database) (p : PrincipalId) (held : Table Note) (n : NoteId) : Prop :=
  match held.find n with
  | some note => db.Visible p n ∧ db.readNote n = .ok note
  | none => ¬db.Visible p n

/-- The projection has something to say about the note above a position. -/
def Pending (db : Database) (p : PrincipalId) (position : ℕ) (n : NoteId) : Prop :=
  ∃ row, db.noteSyncProjection.find (p, n) = some row ∧ position < row.changeSequence

/-- A client at this state holds copies that are current or will be brought up to date. -/
structure Synced (db : Database) (p : PrincipalId) (held : Table Note) (state : CursorState) :
    Prop where
  position_le : state.position ≤ db.lastChangeSequence
  not_held : ∀ n, ¬state.Covers n → held.find n = none
  current : ∀ n, state.Covers n → db.Current p held n ∨ db.Pending p state.position n

/-! ## The stored changes behind the projection -/

/-- Every projection row stands at a stored change of its note. -/
structure ProjectionKeys (db : Database) : Prop where
  change_le : ∀ change ∈ db.domainChanges, change.changeSequence ≤ db.lastChangeSequence
  change_of_row : ∀ row ∈ db.noteSyncProjection, ∃ change ∈ db.domainChanges,
    change.changeSequence = row.changeSequence ∧ change.targetId = row.noteId.entityId

theorem projectionKeys_empty : empty.ProjectionKeys := ⟨by simp [empty], by simp [empty]⟩

/-- Two rows of a principal at the same change are the same row. -/
theorem ProjectionKeys.eq_of_sequence_eq (hkeys : db.ProjectionKeys) {r s : ProjectionRow}
    (hr : r ∈ db.noteSyncProjection) (hs : s ∈ db.noteSyncProjection)
    (hp : r.principalId = s.principalId) (h : r.changeSequence = s.changeSequence) : r = s := by
  obtain ⟨c, hc, hcr, hrt⟩ := hkeys.change_of_row r hr
  obtain ⟨d, hd, hds, hst⟩ := hkeys.change_of_row s hs
  have hcd : c = d := Table.eq_of_key_eq hc hd (by
    show c.changeSequence = d.changeSequence
    omega)
  have hn : r.noteId = s.noteId := noteId_eq_of_entityId (by rw [← hrt, ← hst, hcd])
  exact Table.eq_of_key_eq hr hs (Prod.ext hp hn)

theorem ProjectionKeys.recordChange (hkeys : db.ProjectionKeys) (c : DomainChange) :
    (db.recordChange c).ProjectionKeys where
  change_le := by
    intro change hchange
    rw [recordChange_domainChanges, Table.mem_upsert] at hchange
    show change.changeSequence ≤ db.lastChangeSequence + 1
    rcases hchange with rfl | ⟨hold, -⟩
    · exact le_refl _
    · have := hkeys.change_le change hold
      omega
  change_of_row := by
    intro row hrow
    rw [recordChange_noteSyncProjection, Table.mem_upsertAll fun k =>
      ⟨db.lastChangeSequence + 1, k.1, k.2, c.changeKind.projectionState⟩] at hrow
    · rcases hrow with hnew | ⟨hold, -⟩
      · obtain ⟨hseq, -, hid, -⟩ := mem_projectionRows.mp hnew
        exact ⟨db.nextChange c, by simp, hseq.symm, hid⟩
      · obtain ⟨change, hchange, hseq, hid⟩ := hkeys.change_of_row row hold
        refine ⟨change, ?_, hseq, hid⟩
        rw [recordChange_domainChanges, Table.mem_upsert]
        refine Or.inr ⟨hchange, ?_⟩
        show change.changeSequence ≠ db.lastChangeSequence + 1
        have := hkeys.change_le change hchange
        omega
    · intro r hr
      obtain ⟨hseq, hst, -⟩ := mem_projectionRows.mp hr
      cases r
      simp_all [Keyed.key, nextChange]

theorem ProjectionKeys.of_sameChanges (hkeys : db.ProjectionKeys) (h : db.SameChanges db') :
    db'.ProjectionKeys := by
  constructor
  · rw [h.domainChanges, h.lastChangeSequence]
    exact hkeys.change_le
  · rw [h.domainChanges, h.noteSyncProjection]
    exact hkeys.change_of_row

end Database

variable {db db' : Database} {p : PrincipalId} {n : NoteId} {held : Table Note}

theorem Statement.projectionKeys (hkeys : db.ProjectionKeys) (h : Statement db db') :
    db'.ProjectionKeys := by
  rcases h.recordChange_cases with hsame | ⟨db₀, c, hsame, rfl⟩
  · exact hkeys.of_sameChanges hsame
  · exact (hkeys.of_sameChanges hsame).recordChange c

/-! ## Reading visible notes -/

namespace Database

theorem mem_visibleDetails {details : NoteDetails} : details ∈ db.visibleDetails p ↔
    ∃ row ∈ db.notes, db.noteDetails row = some details ∧ row.deletedAt = none ∧
      db.CanAccess p row.noteId := by
  simp only [visibleDetails, List.mem_flatMap, List.mem_filterMap, List.mem_map, List.mem_filter,
    decide_eq_true_eq]
  constructor
  · rintro ⟨details', ⟨row, hrow, hdetails⟩, access, ⟨haccess, hid, hactive, hp⟩, rfl⟩
    have hrow' := row_of_noteDetails hdetails
    rw [hrow'] at hid hactive
    exact ⟨row, hrow, hdetails, hactive, access, haccess, hid, hp, one_le_accessLevel haccess⟩
  · rintro ⟨row, hrow, hdetails, hactive, access, haccess, hid, hp, -⟩
    have hrow' := row_of_noteDetails hdetails
    rw [← hrow'] at hid hactive
    exact ⟨details, ⟨row, hrow, hdetails⟩, access, ⟨haccess, hid, hactive, hp⟩, rfl⟩

theorem visible_of_details {details : NoteDetails} (h : details ∈ db.visibleDetails p) :
    db.Visible p details.row.noteId := by
  obtain ⟨row, hrow, hdetails, hactive, haccess⟩ := mem_visibleDetails.mp h
  rw [row_of_noteDetails hdetails]
  exact ⟨⟨row, Table.find_of_mem hrow, hactive⟩, haccess⟩

/-- A visible note is in the join, since its owner has a primary identity. -/
theorem OwnersKnown.exists_details (hknown : db.OwnersKnown) (h : db.Visible p n) :
    ∃ details ∈ db.visibleDetails p, details.row.noteId = n := by
  obtain ⟨⟨row, hrow, hactive⟩, haccess⟩ := h
  obtain ⟨r, hr⟩ := hknown.owner row (Table.mem_of_find hrow)
  have hid : r.principalId = row.creator := Table.key_of_find hr
  obtain ⟨identity, hidentity⟩ := hknown.principals.primary r (Table.mem_of_find hr)
  rw [hid] at hidentity
  have hn : row.noteId = n := Table.key_of_find hrow
  have hdetails : db.noteDetails row = some
      ⟨row, identity, row.review.bind fun review => db.primaryIdentity review.reviewer⟩ := by
    simp [noteDetails, hidentity]
  refine ⟨_, mem_visibleDetails.mpr ⟨row, Table.mem_of_find hrow, hdetails, hactive, ?_⟩, hn⟩
  exact hn ▸ haccess

/-! ## Applying a page -/

/-- An entry shows a note as it is, or removes one that the principal can not see. -/
def Shows (db : Database) (p : PrincipalId) : NoteSyncEntry → Prop
  | .upsert note => db.Visible p note.noteId ∧ db.readNote note.noteId = .ok note
  | .remove noteId _ => ¬db.Visible p noteId

theorem find_apply (held : Table Note) (entry : NoteSyncEntry) (n : NoteId) :
    (entry.apply held).find n = if entry.noteId = n then
      (match entry with
        | .upsert note => some note
        | .remove .. => none)
      else held.find n := by
  cases entry with
  | upsert note => exact Table.find_upsert n
  | remove noteId reason =>
    show (held.deleteWhere fun note => note.noteId = noteId).find n = _
    rw [Table.find_deleteWhere]
    cases hn : held.find n with
    | none => simp
    | some note =>
      have hkey : note.noteId = n := Table.key_of_find hn
      by_cases he : noteId = n
      · simp [NoteSyncEntry.noteId, he, hkey]
      · simp [NoteSyncEntry.noteId, he, hkey, Ne.symm he]

/-- A page that shows notes as they are makes the copies of its notes current and leaves the
others. -/
theorem current_apply (held : Table Note) {entries : List NoteSyncEntry}
    (hshows : ∀ entry ∈ entries, db.Shows p entry)
    (n : NoteId) :
    (n ∈ entries.map NoteSyncEntry.noteId →
      db.Current p (entries.foldl NoteSyncEntry.apply held) n) ∧
    (n ∉ entries.map NoteSyncEntry.noteId →
      (entries.foldl NoteSyncEntry.apply held).find n = held.find n) := by
  induction entries using List.reverseRecOn with
  | nil => simp
  | append_singleton entries entry ih =>
    obtain ⟨ihin, ihout⟩ := ih fun e he => hshows e (List.mem_append_left _ he)
    have hentry := hshows entry (by simp)
    simp only [List.foldl_append, List.foldl_cons, List.foldl_nil, List.map_append,
      List.map_cons, List.map_nil, List.mem_append, List.mem_singleton, not_or]
    have hfind := find_apply (entries.foldl NoteSyncEntry.apply held) entry n
    constructor
    · intro hn
      unfold Current
      rw [hfind]
      by_cases he : entry.noteId = n
      · subst he
        rw [if_pos rfl]
        cases entry with
        | upsert note => exact hentry
        | remove noteId reason => exact hentry
      · rw [if_neg he]
        rcases hn with hn | rfl
        · exact ihin hn
        · exact absurd rfl he
    · rintro ⟨hn, hne⟩
      rw [hfind, if_neg (Ne.symm hne)]
      exact ihout hn

theorem Current.congr {held' : Table Note} (h : held'.find n = held.find n)
    (hcurrent : db.Current p held n) : db.Current p held' n := by
  unfold Current
  rw [h]
  exact hcurrent

/-- Outside of what a snapshot has listed the client holds nothing, so a note there is current
as soon as it is not visible. -/
theorem current_of_not_visible (hheld : held.find n = none) (h : ¬db.Visible p n) :
    db.Current p held n := by
  unfold Current
  rw [hheld]
  exact h

/-- The rows of the snapshot phase : the visible notes after the cursor, in order. -/
theorem mem_snapshotRows {after : Option NoteId} {details : NoteDetails} :
    details ∈ db.snapshotRows p after ↔ details ∈ db.visibleDetails p ∧
      ∀ noteId ∈ after, noteId.entityId < details.row.noteId.entityId := by
  simp [snapshotRows, List.mem_insertionSort]

theorem pairwise_snapshotRows (after : Option NoteId) : (db.snapshotRows p after).Pairwise
    fun a b => a.row.noteId.entityId ≤ b.row.noteId.entityId :=
  haveI : Std.Total fun a b : NoteDetails => a.row.noteId.entityId ≤ b.row.noteId.entityId :=
    ⟨fun _ _ => Nat.le_total _ _⟩
  haveI : IsTrans NoteDetails fun a b => a.row.noteId.entityId ≤ b.row.noteId.entityId :=
    ⟨fun _ _ _ => Nat.le_trans⟩
  List.pairwise_insertionSort _ _

/-- The rows of the changes phase : the projection rows above the cursor, in order. -/
theorem mem_changeRows {after : ℕ} {row : ProjectionRow} :
    row ∈ db.changeRows p after ↔ row ∈ db.noteSyncProjection ∧ row.principalId = p ∧
      after < row.changeSequence := by
  simp [changeRows, List.mem_insertionSort]

theorem pairwise_changeRows (db : Database) (p : PrincipalId) (after : ℕ) :
    (db.changeRows p after).Pairwise
    fun a b => a.changeSequence ≤ b.changeSequence :=
  haveI : Std.Total fun a b : ProjectionRow => a.changeSequence ≤ b.changeSequence :=
    ⟨fun _ _ => Nat.le_total _ _⟩
  haveI : IsTrans ProjectionRow fun a b => a.changeSequence ≤ b.changeSequence :=
    ⟨fun _ _ _ => Nat.le_trans⟩
  List.pairwise_insertionSort _ _

theorem snapshotEntry_eq_ok {details : NoteDetails} {entry : NoteSyncEntry}
    (h : snapshotEntry details = .ok entry) :
    ∃ note, noteFromRow details = .ok note ∧ entry = .upsert note := by
  unfold snapshotEntry at h
  rw [Except.mapError_eq_ok, Except.map_eq_ok] at h
  obtain ⟨note, hnote, rfl⟩ := h
  exact ⟨note, hnote, rfl⟩

/-- The entry of a visible note shows it as it is. -/
theorem shows_snapshotEntry {details : NoteDetails} {entry : NoteSyncEntry}
    (hdetails : details ∈ db.visibleDetails p) (h : snapshotEntry details = .ok entry) :
    entry.noteId = details.row.noteId ∧ db.Shows p entry := by
  obtain ⟨note, hnote, rfl⟩ := snapshotEntry_eq_ok h
  have hid := noteId_of_noteFromRow hnote
  obtain ⟨row, hrow, hjoin, -, -⟩ := mem_visibleDetails.mp hdetails
  have hrow' := row_of_noteDetails hjoin
  refine ⟨hid, hid.symm ▸ visible_of_details hdetails, ?_⟩
  rw [hid, hrow']
  exact readNote_eq_ok.mpr ⟨row, details, Table.find_of_mem hrow, hjoin, hnote⟩

/-- The entry of a projection row shows its note as it is, or removes it. -/
theorem shows_changeEntry (hsync : db.SyncConsistent) (hknown : db.OwnersKnown)
    {row : ProjectionRow} (hrow : row ∈ db.noteSyncProjection) (hp : row.principalId = p)
    {entry : NoteSyncEntry} (h : db.changeEntry p row = .ok entry) :
    entry.noteId = row.noteId ∧ db.Shows p entry := by
  unfold changeEntry at h
  cases hstate : row.state with
  | remove reason =>
    rw [hstate] at h
    cases h
    refine ⟨rfl, fun hvisible => ?_⟩
    have := (hsync.upsert_iff row hrow).mpr (hp.symm ▸ hvisible)
    rw [hstate] at this
    cases this
  | upsert =>
    rw [hstate] at h
    dsimp only at h
    split at h
    · next details hfind =>
      have hid : details.row.noteId = row.noteId := by simpa using List.find?_some hfind
      obtain ⟨hentry, hshows⟩ := shows_snapshotEntry (List.mem_of_find?_eq_some hfind) h
      exact ⟨hentry.trans hid, hshows⟩
    · next hfind =>
      cases h
      refine ⟨rfl, fun hvisible => ?_⟩
      obtain ⟨details, hdetails, hid⟩ := hknown.exists_details hvisible
      have := List.find?_eq_none.mp hfind details hdetails
      simp [hid] at this

/-! ## A page keeps the client synchronized -/

variable {state next : CursorState} {limit : ℕ} {entries : List NoteSyncEntry} {hasMore : Bool}

/-- Where a page of the snapshot phase was cut : at the last note it lists. -/
theorem snapshot_cut {taken : List (NoteDetails × NoteSyncEntry)} {rest : List NoteDetails}
    (hne : taken ≠ []) (hsorted : (taken.map Prod.fst ++ rest).Pairwise
      fun a b => a.row.noteId.entityId ≤ b.row.noteId.entityId)
    (hentries : ∀ x ∈ taken, snapshotEntry x.1 = .ok x.2) :
    ∃ last ∈ taken, (taken.map Prod.snd).getLast?.bind NoteSyncEntry.listedId =
        some last.1.row.noteId ∧
      (∀ x ∈ taken, x.1.row.noteId.entityId ≤ last.1.row.noteId.entityId) ∧
      ∀ details ∈ rest, last.1.row.noteId.entityId ≤ details.row.noteId.entityId := by
  rcases List.eq_nil_or_concat taken with rfl | ⟨init, last, rfl⟩
  · exact absurd rfl hne
  rw [List.concat_eq_append] at *
  have hlast : last ∈ init ++ [last] := by simp
  obtain ⟨note, hnote, heq⟩ := snapshotEntry_eq_ok (hentries last hlast)
  rw [List.pairwise_append, List.map_append, List.pairwise_append] at hsorted
  obtain ⟨⟨-, -, hinit⟩, -, hrest⟩ := hsorted
  refine ⟨last, hlast, ?_, fun x hx => ?_, fun details hdetails => ?_⟩
  · simp [heq, NoteSyncEntry.listedId, noteId_of_noteFromRow hnote]
  · rcases List.mem_append.mp hx with hx | hx
    · exact hinit x.1 (List.mem_map_of_mem hx) last.1 (by simp)
    · rw [List.mem_singleton.mp hx]
  · exact hrest last.1 (by simp) details hdetails

/-- A page of the snapshot phase. -/
theorem snapshotPage_synced (hknown : db.OwnersKnown) (hphase : state.phase = .snapshot)
    (hlimit : 1 ≤ limit) (hsynced : db.Synced p held state)
    (h : db.pageOf p state limit = .ok (entries, hasMore, next)) :
    db.Synced p (entries.foldl NoteSyncEntry.apply held) next := by
  obtain ⟨phase, after, sequence, watermark⟩ := state
  cases hphase
  unfold pageOf at h
  dsimp only at h
  rw [Except.bind_eq_ok] at h
  obtain ⟨⟨taken, truncated⟩, htake, h⟩ := h
  obtain ⟨rest, hrows, hentries, hrest, hempty⟩ := takePage_limit hlimit htake
  have htaken : ∀ x ∈ taken, x.2.noteId = x.1.row.noteId ∧ db.Shows p x.2 := by
    intro x hx
    have hmem : x.1 ∈ db.snapshotRows p after := by
      rw [hrows]
      exact List.mem_append_left _ (List.mem_map_of_mem hx)
    exact shows_snapshotEntry (mem_snapshotRows.mp hmem).1 (hentries x hx)
  have hshows : ∀ entry ∈ taken.map Prod.snd, db.Shows p entry := by
    intro entry hentry
    obtain ⟨x, hx, rfl⟩ := List.mem_map.mp hentry
    exact (htaken x hx).2
  have hids : ∀ n, n ∈ (taken.map Prod.snd).map NoteSyncEntry.noteId ↔
      ∃ x ∈ taken, x.1.row.noteId = n := by
    intro n
    rw [List.map_map, List.mem_map]
    refine exists_congr fun x => and_congr_right fun hx => ?_
    rw [← (htaken x hx).1]
    rfl
  -- A note that is neither taken nor left over, nor listed before, is not visible.
  have hinvisible : ∀ n, (∀ a ∈ after, a.entityId < n.entityId) →
      (¬∃ x ∈ taken, x.1.row.noteId = n) → (∀ details ∈ rest, details.row.noteId ≠ n) →
      ¬db.Visible p n := by
    intro n hafter hnot hleft hvisible
    obtain ⟨details, hdetails, hid⟩ := hknown.exists_details hvisible
    have hmem : details ∈ db.snapshotRows p after :=
      mem_snapshotRows.mpr ⟨hdetails, by rw [hid]; exact hafter⟩
    rw [hrows, List.mem_append] at hmem
    rcases hmem with hmem | hmem
    · obtain ⟨x, hx, rfl⟩ := List.mem_map.mp hmem
      exact hnot ⟨x, hx, hid⟩
    · exact hleft details hmem hid
  have huncovered : ∀ n : NoteId, (¬∃ a ∈ after, n.entityId ≤ a.entityId) →
      ∀ a ∈ after, a.entityId < n.entityId := by
    intro n hn a ha
    by_contra hlt
    exact hn ⟨a, ha, by omega⟩
  cases hmore : decide (limit < ((db.snapshotRows p after).take (limit + 1)).length) ||
      truncated with
  | false =>
    rw [hmore] at h
    cases h
    have hrest := hrest hmore
    refine ⟨hsynced.position_le, fun n hn => absurd trivial hn, fun n _ => ?_⟩
    obtain ⟨hin, hout⟩ := current_apply held hshows n
    by_cases hn : n ∈ (taken.map Prod.snd).map NoteSyncEntry.noteId
    · exact Or.inl (hin hn)
    · by_cases hcovered : ∃ a ∈ after, n.entityId ≤ a.entityId
      · rcases hsynced.current n hcovered with hcurrent | hpending
        · exact Or.inl (hcurrent.congr (hout hn))
        · exact Or.inr hpending
      · refine Or.inl (current_of_not_visible ((hout hn).trans (hsynced.not_held n hcovered)) ?_)
        exact hinvisible n (huncovered n hcovered) (fun hx => hn ((hids n).mpr hx))
          (by simp [hrest])
  | true =>
    rw [hmore] at h
    have hne : taken ≠ [] := by
      rintro rfl
      rw [hempty rfl] at hmore
      cases hmore
    obtain ⟨last, hlast, hafter, hbefore, hleft⟩ :=
      snapshot_cut hne (hrows ▸ pairwise_snapshotRows after) hentries
    cases h
    simp only [if_true, hafter]
    have hbound : ∀ a ∈ after, a.entityId < last.1.row.noteId.entityId := by
      have hmem : last.1 ∈ db.snapshotRows p after := by
        rw [hrows]
        exact List.mem_append_left _ (List.mem_map_of_mem hlast)
      exact (mem_snapshotRows.mp hmem).2
    refine ⟨hsynced.position_le, fun n hn => ?_, fun n hn => ?_⟩
    · have hlt : last.1.row.noteId.entityId < n.entityId := by
        by_contra hle
        exact hn ⟨_, rfl, by omega⟩
      have hnot : n ∉ (taken.map Prod.snd).map NoteSyncEntry.noteId := by
        rw [hids]
        rintro ⟨x, hx, rfl⟩
        have := hbefore x hx
        omega
      rw [(current_apply held hshows n).2 hnot]
      refine hsynced.not_held n ?_
      rintro ⟨a, ha, hle⟩
      have := hbound a ha
      omega
    · obtain ⟨a, ha, hle⟩ := hn
      cases ha
      obtain ⟨hin, hout⟩ := current_apply held hshows n
      by_cases hn : n ∈ (taken.map Prod.snd).map NoteSyncEntry.noteId
      · exact Or.inl (hin hn)
      · have hnot : ¬∃ x ∈ taken, x.1.row.noteId = n := fun hx => hn ((hids n).mpr hx)
        by_cases hcovered : ∃ a ∈ after, n.entityId ≤ a.entityId
        · rcases hsynced.current n hcovered with hcurrent | hpending
          · exact Or.inl (hcurrent.congr (hout hn))
          · exact Or.inr hpending
        · have hheld := (hout hn).trans (hsynced.not_held n hcovered)
          refine Or.inl (current_of_not_visible hheld ?_)
          refine hinvisible n (huncovered n hcovered) hnot fun details hdetails hid => ?_
          have := hleft details hdetails
          rw [hid] at this
          exact hnot ⟨last, hlast, noteId_eq_of_entityId (by omega)⟩

/-- A page of the changes phase. -/
theorem changesPage_synced (hsync : db.SyncConsistent) (hkeys : db.ProjectionKeys)
    (hknown : db.OwnersKnown) (hphase : state.phase = .changes) (hlimit : 1 ≤ limit)
    (hsynced : db.Synced p held state)
    (h : db.pageOf p state limit = .ok (entries, hasMore, next)) :
    db.Synced p (entries.foldl NoteSyncEntry.apply held) next ∧
      (hasMore = false → ∀ n, db.Current p (entries.foldl NoteSyncEntry.apply held) n) := by
  obtain ⟨phase, after, sequence, watermark⟩ := state
  cases hphase
  unfold pageOf at h
  dsimp only at h
  rw [Except.bind_eq_ok] at h
  obtain ⟨⟨taken, truncated⟩, htake, h⟩ := h
  obtain ⟨rest, hrows, hentries, hrest, hempty⟩ := takePage_limit hlimit htake
  cases h
  have hmem : ∀ x ∈ taken, x.1 ∈ db.noteSyncProjection ∧ x.1.principalId = p ∧
      sequence < x.1.changeSequence := by
    intro x hx
    refine mem_changeRows.mp ?_
    rw [hrows]
    exact List.mem_append_left _ (List.mem_map_of_mem hx)
  have htaken : ∀ x ∈ taken, x.2.noteId = x.1.noteId ∧ db.Shows p x.2 := by
    intro x hx
    obtain ⟨hrow, hp, -⟩ := hmem x hx
    exact shows_changeEntry hsync hknown hrow hp (hentries x hx)
  have hshows : ∀ entry ∈ taken.map Prod.snd, db.Shows p entry := by
    intro entry hentry
    obtain ⟨x, hx, rfl⟩ := List.mem_map.mp hentry
    exact (htaken x hx).2
  -- A row above the cursor is shown by the page or left over.
  have hleft : ∀ n row, db.noteSyncProjection.find (p, n) = some row →
      sequence < row.changeSequence →
      n ∈ (taken.map Prod.snd).map NoteSyncEntry.noteId ∨ row ∈ rest := by
    intro n row hrow hlt
    obtain ⟨hp, hn⟩ := Prod.mk.inj (Table.key_of_find hrow)
    have hchange : row ∈ db.changeRows p sequence :=
      mem_changeRows.mpr ⟨Table.mem_of_find hrow, hp, hlt⟩
    rw [hrows, List.mem_append] at hchange
    rcases hchange with hchange | hchange
    · left
      obtain ⟨x, hx, rfl⟩ := List.mem_map.mp hchange
      rw [List.map_map, List.mem_map]
      exact ⟨x, hx, (htaken x hx).1.trans hn⟩
    · exact Or.inr hchange
  have hcurrent : ∀ n, (∀ row ∈ rest, row.noteId ≠ n) →
      db.Current p ((taken.map Prod.snd).foldl NoteSyncEntry.apply held) n := by
    intro n hn
    obtain ⟨hin, hout⟩ := current_apply held hshows n
    by_cases hmem : n ∈ (taken.map Prod.snd).map NoteSyncEntry.noteId
    · exact hin hmem
    · rcases hsynced.current n trivial with hcurrent | ⟨row, hrow, hlt⟩
      · exact hcurrent.congr (hout hmem)
      · rcases hleft n row hrow hlt with h | h
        · exact absurd h hmem
        · exact absurd (Prod.mk.inj (Table.key_of_find hrow)).2 (hn row h)
  refine ⟨⟨?_, fun n hn => absurd trivial hn, fun n _ => ?_⟩, fun hmore n => ?_⟩
  · show taken.getLast?.elim sequence (fun x => x.1.changeSequence) ≤ db.lastChangeSequence
    cases hlast : taken.getLast? with
    | none => exact hsynced.position_le
    | some last =>
      have hrow := (hmem last (List.mem_of_getLast? hlast)).1
      exact (hsync.row_le last.1 hrow).trans hsync.latest_le
  · obtain ⟨hin, hout⟩ := current_apply held hshows n
    by_cases hn : n ∈ (taken.map Prod.snd).map NoteSyncEntry.noteId
    · exact Or.inl (hin hn)
    · rcases hsynced.current n trivial with hcurrent | ⟨row, hrow, hlt⟩
      · exact Or.inl (hcurrent.congr (hout hn))
      · right
        refine ⟨row, hrow, ?_⟩
        have hmemRest : row ∈ rest := (hleft n row hrow hlt).resolve_left hn
        show taken.getLast?.elim sequence (fun x => x.1.changeSequence) < row.changeSequence
        cases hlast : taken.getLast? with
        | none => exact hlt
        | some last =>
          have hlastMem := List.mem_of_getLast? hlast
          have hsorted := pairwise_changeRows db p sequence
          rw [hrows, List.pairwise_append] at hsorted
          have hle := hsorted.2.2 last.1 (List.mem_map_of_mem hlastMem) row hmemRest
          obtain ⟨hlastRow, hlastPrincipal, -⟩ := hmem last hlastMem
          obtain ⟨hp, hid⟩ := Prod.mk.inj (Table.key_of_find hrow)
          refine lt_of_le_of_ne hle fun heq => hn ?_
          have hsame := hkeys.eq_of_sequence_eq hlastRow (Table.mem_of_find hrow)
            (hlastPrincipal.trans hp.symm) heq
          rw [List.map_map, List.mem_map]
          refine ⟨last, hlastMem, (htaken last hlastMem).1.trans ?_⟩
          rw [hsame]
          exact hid
  · refine hcurrent n ?_
    rw [hrest hmore]
    simp

end Database

end Marginalis
