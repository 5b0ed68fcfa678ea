import Marginalis.ArchiveReader
import Marginalis.RestoreRoundTrip

/-!
# Reading values and principals

The reader of an archive takes texts for the values they were written for, and the principals in
the order of their primary identities, numbered from one on. It derives drafts from their sources
once more. All of this is one `Restatement` of the snapshot (`ArchiveLibrary.restatement`), and its
principals are found by their primary identities (`principalRef_restate`).
-/

namespace Marginalis

open LogicalSnapshot
open Table (orderBy)

/-- What archives rely on of the other crates : UUIDs and bytes are read back from the texts they
are written to. -/
structure ArchiveLibrary.Rereads (lib : ArchiveLibrary) : Prop where
  uuid : ∀ entityId < 2 ^ 128, lib.parseUuid (entityIdText entityId) = some entityId
  base64 : ∀ bytes, lib.decodeBase64 (lib.encodeBase64 bytes) = some bytes

/-- A UUID of version 7. -/
def IsVersion7 (entityId : ℕ) : Prop := entityId < 2 ^ 128 ∧ entityId / 2 ^ 76 % 16 = 7

/-! ## Lists of records -/

section ReadEach

variable {α β γ : Type} {invalid : ℕ → ArchiveContentsError} {read : α → Option β} {position : ℕ}

/-- Records are read when each of them is. -/
theorem readEach_eq_ok {entries : List α} {values : List β} :
    readEach invalid read position entries = .ok values ↔
      List.Forall₂ (fun entry value => read entry = some value) entries values := by
  induction entries generalizing position values with
  | nil => simp [readEach, eq_comm]
  | cons entry entries ih =>
    rw [readEach, List.forall₂_cons_left_iff]
    cases hread : read entry with
    | none => simp
    | some value =>
      simp only [Except.bind_eq_ok, ih]
      constructor
      · rintro ⟨rest, hrest, h⟩
        exact ⟨value, rest, rfl, hrest, (Except.ok.inj h).symm⟩
      · rintro ⟨_, rest, hvalue, hrest, rfl⟩
        cases hvalue
        exact ⟨rest, hrest, rfl⟩

/-- Records that are each read back as what they were written for. -/
theorem readEach_map {row : γ → α} {value : γ → β} {l : List γ}
    (h : ∀ c ∈ l, read (row c) = some (value c)) :
    readEach invalid read position (l.map row) = .ok (l.map value) := by
  rw [readEach_eq_ok, List.forall₂_map_left_iff, List.forall₂_map_right_iff, List.forall₂_same]
  exact h

/-- The same for records that are sorted. -/
theorem readEach_orderBy {ω : Type*} [LinearOrder ω] {key : α → ω} {row : γ → α} {value : γ → β}
    {l : List γ} (h : ∀ c ∈ l, read (row c) = some (value c)) :
    readEach invalid read position (orderBy key (l.map row)) =
      .ok ((orderBy (fun c => key (row c)) l).map value) := by
  rw [Table.orderBy_map]
  exact readEach_map fun c hc => h c (Table.mem_orderBy.mp hc)

end ReadEach

namespace ArchiveLibrary

variable {lib : ArchiveLibrary}

/-! ## Values -/

theorem Rereads.parseEntityId (hlib : lib.Rereads) {entityId : ℕ} (h : IsVersion7 entityId) :
    lib.parseEntityId (entityIdText entityId) = some entityId := by
  unfold ArchiveLibrary.parseEntityId
  rw [hlib.uuid entityId h.1]
  exact Option.filter_eq_some_iff.mpr ⟨rfl, decide_eq_true h.2⟩

theorem decodeSha256_encodeSha256 {digest : ℕ} (h : digest < 2 ^ 256) :
    decodeSha256 (encodeSha256 digest) = some digest := by
  have hascii : ∀ c ∈ Uuid.hex 64 digest, c.toNat < 128 := by
    intro c hc
    obtain ⟨d, hd, rfl⟩ := Uuid.mem_hex hc
    have hall : ∀ d < 16, (Nat.digitChar d).toNat < 128 := by decide
    exact hall d hd
  have hvalue : Uuid.valueOfPairs 0 (Uuid.hex 64 digest) = some digest := by
    have hpairs := Uuid.valueOfPairs_hex (m := 0) (k := 32) (n := digest) (by omega)
    simpa using hpairs
  unfold decodeSha256
  rw [if_neg]
  · rw [encodeSha256, String.toList_ofList, hvalue]
    exact Option.filter_eq_some_iff.mpr ⟨rfl, decide_eq_true rfl⟩
  · rw [encodeSha256, String.toList_ofList]
    simpa using hascii

theorem readRevision_cast {revision : ℕ} (h : 0 < revision) :
    readRevision (revision : ℤ) = some revision := by
  unfold readRevision
  rw [if_pos (by omega), Int.toNat_natCast]

/-! ## Principals -/

/-- The identities of an archive pass the check of `Identity::new`. -/
def Accepts (lib : ArchiveLibrary) (identity : Identity) : Prop :=
  Identity.new lib.url identity.issuer identity.subject = .ok identity

theorem readIdentity_toArchive {identity : Identity} {seen : List Identity}
    (haccepts : lib.Accepts identity) (hnew : identity ∉ seen) :
    lib.readIdentity seen identity.toArchive.issuer identity.toArchive.subject =
      some (identity, identity :: seen) := by
  have hidentity : Identity.new lib.url identity.toArchive.issuer identity.toArchive.subject =
      .ok identity := haccepts
  unfold readIdentity
  rw [hidentity]
  exact Option.map_eq_some_iff.mpr ⟨_, insertNew_eq_some.mpr ⟨hnew, rfl⟩, rfl⟩

theorem readAliases_map {identities seen : List Identity}
    (haccepts : ∀ identity ∈ identities, lib.Accepts identity) (hnodup : identities.Nodup)
    (hnew : identities.Disjoint seen) :
    lib.readAliases seen (identities.map Identity.toArchive) =
      some (identities, identities.reverse ++ seen) := by
  induction identities generalizing seen with
  | nil => rfl
  | cons identity identities ih =>
    obtain ⟨hother, hnodup⟩ := List.nodup_cons.mp hnodup
    obtain ⟨hfirst, hrest⟩ := List.disjoint_cons_left.mp hnew
    have hdisjoint : identities.Disjoint (identity :: seen) :=
      List.disjoint_cons_right.mpr ⟨hother, hrest⟩
    rw [List.map_cons, readAliases,
      readIdentity_toArchive (haccepts identity List.mem_cons_self) hfirst]
    show (lib.readAliases (identity :: seen) (identities.map Identity.toArchive)).bind _ = _
    rw [ih (fun other hother => haccepts other (List.mem_cons_of_mem _ hother)) hnodup hdisjoint]
    simp

/-- The identities of a principal as they are read : the primary one, and the others in order. -/
def readIdentities (principal : Principal) : List Identity :=
  principal.reference.primaryIdentity :: orderBy (fun identity => identity.toArchive.key)
    (principal.identities.filter fun identity => identity ≠ principal.reference.primaryIdentity)

theorem readIdentities_perm (principal : Principal) :
    (readIdentities principal).Perm principal.identities := by
  refine (Table.orderBy_perm.cons _).trans ?_
  have herase := (List.perm_cons_erase principal.primary_mem).symm
  have hfilter : principal.identities.filter (fun identity =>
      identity ≠ principal.reference.primaryIdentity) =
        principal.identities.filter (· != principal.reference.primaryIdentity) :=
    List.filter_congr fun identity _ => by
      by_cases hsame : identity = principal.reference.primaryIdentity <;> simp [hsame]
  rwa [principal.nodup.erase_eq_filter, ← hfilter] at herase

theorem readPrincipal_toArchive {principal : Principal} {seen : List Identity}
    (haccepts : ∀ identity ∈ principal.identities, lib.Accepts identity)
    (hnew : principal.identities.Disjoint seen) : ∃ seen',
      lib.readPrincipal seen principal.toArchive.canonical =
        some ((principal.reference.primaryIdentity, readIdentities principal), seen') ∧
      ∀ identity, identity ∈ seen' ↔ identity ∈ principal.identities ∨ identity ∈ seen := by
  set primary := principal.reference.primaryIdentity with hprimary
  set others := orderBy (fun identity => identity.toArchive.key)
    (principal.identities.filter fun identity => identity ≠ primary) with hothers
  have hperm : (primary :: others).Perm principal.identities := readIdentities_perm principal
  obtain ⟨hother, hnodup⟩ := List.nodup_cons.mp (hperm.nodup_iff.mpr principal.nodup)
  have hdisjoint : others.Disjoint (primary :: seen) := by
    refine List.disjoint_cons_right.mpr ⟨hother, fun identity hmem hseen => ?_⟩
    exact hnew (hperm.mem_iff.mp (List.mem_cons_of_mem _ hmem)) hseen
  have haliases : principal.toArchive.canonical.aliases = others.map Identity.toArchive :=
    Table.orderBy_map
  refine ⟨others.reverse ++ primary :: seen, ?_, fun identity => ?_⟩
  · have hfirst : lib.readIdentity seen primary.toArchive.issuer primary.toArchive.subject =
        some (primary, primary :: seen) :=
      readIdentity_toArchive (haccepts _ principal.primary_mem) (hnew principal.primary_mem)
    have hrest := readAliases_map (fun identity hmem =>
      haccepts identity (hperm.mem_iff.mp (List.mem_cons_of_mem _ hmem))) hnodup hdisjoint
    unfold readPrincipal
    rw [haliases]
    show (lib.readIdentity seen primary.toArchive.issuer primary.toArchive.subject).bind _ = _
    rw [hfirst]
    show (lib.readAliases (primary :: seen) (others.map Identity.toArchive)).bind _ = _
    rw [hrest]
    rfl
  · rw [← hperm.mem_iff]
    simp only [List.mem_append, List.mem_reverse, List.mem_cons]
    tauto

/-- The principals of an archive are read when no identity is that of two of them. -/
theorem readPrincipals_map {principals : List Principal} {seen : List Identity} {position : ℕ}
    (haccepts : ∀ principal ∈ principals, ∀ identity ∈ principal.identities, lib.Accepts identity)
    (hdisjoint : principals.Pairwise fun a b => a.identities.Disjoint b.identities)
    (hnew : ∀ principal ∈ principals, principal.identities.Disjoint seen) :
    lib.readPrincipals position seen (principals.map fun principal =>
        principal.toArchive.canonical) =
      .ok (principals.map fun principal =>
        (principal.reference.primaryIdentity, readIdentities principal)) := by
  induction principals generalizing seen position with
  | nil => rfl
  | cons principal principals ih =>
    obtain ⟨hfirst, hothers⟩ := List.pairwise_cons.mp hdisjoint
    obtain ⟨seen', hread, hseen⟩ := readPrincipal_toArchive
      (haccepts principal List.mem_cons_self) (hnew principal List.mem_cons_self)
    have hnew' : ∀ other ∈ principals, other.identities.Disjoint seen' := by
      intro other hother identity hidentity hmem
      rcases (hseen identity).mp hmem with hmem | hmem
      · exact hfirst other hother hmem hidentity
      · exact hnew other (List.mem_cons_of_mem _ hother) hidentity hmem
    rw [List.map_cons, readPrincipals, hread]
    exact Except.bind_eq_ok.mpr ⟨_, ih (fun other hother =>
      haccepts other (List.mem_cons_of_mem _ hother)) hothers hnew', rfl⟩

/-- A principal as an archive declares it. -/
def declared (r : Restatement) (principal : Principal) : Principal where
  reference := principal.reference.restate r
  identities := readIdentities principal
  primary_mem := List.mem_cons_self
  nodup := (readIdentities_perm principal).nodup_iff.mpr principal.nodup

theorem numberPrincipals_map {r : Restatement} {principals : List Principal} {position : ℕ}
    (hnumbers : ∀ i, ∀ h : i < principals.length,
      r.principalId principals[i].reference.id = ⟨position + i⟩) :
    numberPrincipals position (principals.map fun principal =>
        (principal.reference.primaryIdentity, readIdentities principal)) =
      .ok (principals.map (declared r)) := by
  induction principals generalizing position with
  | nil => rfl
  | cons principal principals ih =>
    have hnumber : r.principalId principal.reference.id = ⟨position⟩ := hnumbers 0 (by simp)
    have hrest : ∀ i, ∀ h : i < principals.length,
        r.principalId principals[i].reference.id = ⟨position + 1 + i⟩ := by
      intro i hi
      have hnext := hnumbers (i + 1) (by simpa using hi)
      rw [List.getElem_cons_succ] at hnext
      rw [hnext, Nat.add_right_comm, Nat.add_assoc]
    have hrestore : Principal.restore ⟨position⟩ principal.reference.primaryIdentity
        (readIdentities principal) = .ok (declared r principal) := by
      have hnodup := (declared r principal).nodup
      unfold Principal.restore
      rw [dif_pos ⟨List.cons_ne_nil _ _, List.mem_cons_self, hnodup⟩]
      unfold declared PrincipalRef.restate
      rw [Except.ok.injEq]
      exact Principal.eq_of (by rw [hnumber]) rfl
    rw [List.map_cons, numberPrincipals, hrestore]
    exact Except.bind_eq_ok.mpr ⟨_, ih hrest, rfl⟩

/-- The order in which the principals of an archive are numbered. -/
def numbered (principals : List Principal) : List Principal :=
  orderBy (fun principal => principal.reference.primaryIdentity.toArchive.key) principals

/-- The numbers that a reader gives the principals, and the drafts that it derives. -/
def restatement (lib : ArchiveLibrary) (principals : List Principal) : Restatement where
  principalId id :=
    ⟨1 + ((numbered principals).map fun principal => principal.reference.id).idxOf id⟩
  draft old :=
    match lib.validateSource old.source with
    | none => old
    | some validated => ⟨validated.draft.title, old.source, validated.draft.tags⟩
  source_draft old := by split <;> rfl

theorem restatement_draft {principals : List Principal} {old : NoteDraft}
    {validated : ValidatedNoteDraft} (h : lib.validateSource old.source = some validated) :
    (lib.restatement principals).draft old =
      ⟨validated.draft.title, old.source, validated.draft.tags⟩ := by
  unfold restatement
  dsimp only
  rw [h]

theorem separates_restatement (principals : List Principal) :
    Separates (lib.restatement principals) principals := by
  intro a ha b hb heq
  have hmem : a.reference.id ∈ (numbered principals).map fun principal => principal.reference.id :=
    List.mem_map_of_mem (Table.mem_orderBy.mpr ha)
  exact (List.idxOf_inj hmem).mp (Nat.add_left_cancel (congrArg PrincipalId.get heq))

section Principals

variable {principals : List Principal} (hdistinct : DistinctPrincipals principals)
include hdistinct

theorem declaredArchivePrincipals_eq {archive : Archive}
    (haccepts : ∀ principal ∈ principals, ∀ identity ∈ principal.identities, lib.Accepts identity)
    (harchive : archive.principals = some (orderBy ArchivePrincipal.key
      ((principals.map Principal.toArchive).map ArchivePrincipal.canonical))) :
    lib.declaredArchivePrincipals archive =
      .ok ((numbered principals).map (declared (lib.restatement principals))) := by
  have hrecords : orderBy ArchivePrincipal.key
      ((principals.map Principal.toArchive).map ArchivePrincipal.canonical) =
        (numbered principals).map fun principal => principal.toArchive.canonical := by
    rw [List.map_map, Table.orderBy_map]
    rfl
  have hsorted : orderBy (fun entry : Identity × List Identity => entry.1.toArchive.key)
      ((numbered principals).map fun principal =>
        (principal.reference.primaryIdentity, readIdentities principal)) =
        (numbered principals).map fun principal =>
          (principal.reference.primaryIdentity, readIdentities principal) := by
    rw [Table.orderBy_map]
    exact congrArg _ Table.orderBy_orderBy
  have hsymm : ∀ a b : Principal, a.identities.Disjoint b.identities →
      b.identities.Disjoint a.identities := fun _ _ h => h.symm
  have hread : lib.readPrincipals 1 [] ((numbered principals).map fun principal =>
      principal.toArchive.canonical) = .ok ((numbered principals).map fun principal =>
        (principal.reference.primaryIdentity, readIdentities principal)) :=
    readPrincipals_map (fun principal hmem => haccepts principal (Table.mem_orderBy.mp hmem))
      ((Table.orderBy_perm.pairwise_iff (hsymm _ _)).mpr hdistinct.identities)
      fun principal _ => List.disjoint_nil_right _
  have hnodup : ((numbered principals).map fun principal => principal.reference.id).Nodup :=
    (Table.orderBy_perm.map _).nodup_iff.mpr hdistinct.ids
  unfold declaredArchivePrincipals
  rw [harchive]
  refine Except.bind_eq_ok.mpr ⟨_, hrecords ▸ hread, ?_⟩
  rw [hsorted]
  refine numberPrincipals_map fun i hi => ?_
  unfold restatement
  dsimp only
  have hindex := hnodup.idxOf_getElem i (by simpa using hi)
  rw [List.getElem_map] at hindex
  rw [hindex]

/-- A reader finds every principal by its primary identity. -/
theorem principalRef_restate {r : Restatement}
    (haccepts : ∀ principal ∈ principals, ∀ identity ∈ principal.identities, lib.Accepts identity)
    {reference : PrincipalRef} (hknows : Knows principals reference) :
    lib.principalRef ((numbered principals).map (declared r)) reference.primaryIdentity.issuer
      reference.primaryIdentity.subject = some (reference.restate r) := by
  obtain ⟨principal, hprincipal, rfl⟩ := hknows
  have hidentity : Identity.new lib.url principal.reference.primaryIdentity.issuer
      principal.reference.primaryIdentity.subject = .ok principal.reference.primaryIdentity :=
    haccepts principal hprincipal _ principal.primary_mem
  have hnodup : (((numbered principals).map (declared r)).map fun principal =>
      principal.reference.primaryIdentity).Nodup := by
    rw [List.map_map]
    refine nodup_map_of_imp ((Table.orderBy_perm.map _).nodup_iff.mpr hdistinct.ids)
      fun a ha b hb heq => ?_
    rw [hdistinct.eq_of_mem (Table.mem_orderBy.mp ha) (Table.mem_orderBy.mp hb) a.primary_mem
      (show a.reference.primaryIdentity ∈ b.identities from
        (show a.reference.primaryIdentity = b.reference.primaryIdentity from heq) ▸ b.primary_mem)]
  have hfind : ((numbered principals).map (declared r)).find? (fun other =>
      other.reference.primaryIdentity = principal.reference.primaryIdentity) =
        some (declared r principal) :=
    (List.find?_key_eq_some hnodup).mpr
      ⟨List.mem_map_of_mem (Table.mem_orderBy.mpr hprincipal), rfl⟩
  unfold principalRef
  rw [hidentity]
  dsimp only
  rw [hfind]
  rfl

end Principals

end ArchiveLibrary

end Marginalis
