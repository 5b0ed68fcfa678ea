import Mathlib.Algebra.Order.Ring.Int
import Mathlib.Order.Lattice

/-!
# The business model

Identifiers, principals and the note as the rest of the program sees them. A `Note` is
built by `Note.create` or `Note.restore` only, and both establish `NoteRestore.Consistent` :
the times of a note are in order, and a recorded review is one by the owner of a revision
that exists. The structure carries that fact, so a reader of a note never checks it again.

A UUID is its 128-bit number : the canonical text has a fixed width, so the order of the
texts is the order of the numbers. Revisions and sequence numbers are natural numbers.
Times are integers, in milliseconds since the epoch, with the saturating 64-bit addition
and subtraction where the source uses them.
-/

namespace Marginalis

/-! ## Identifiers and clocks -/

/-- An id wraps a UUIDv7, as its number. -/
structure NoteId where
  entityId : ℕ
  deriving DecidableEq, Repr

structure AttachmentId where
  entityId : ℕ
  deriving DecidableEq, Repr

structure PrincipalId where
  get : ℕ
  deriving DecidableEq, Repr

theorem noteId_eq_of_entityId {a b : NoteId} (h : a.entityId = b.entityId) : a = b := by
  cases a
  cases b
  exact congrArg _ h

/-- `Revision::INITIAL`. -/
def initialRevision : ℕ := 1

def i64Min : ℤ := -9223372036854775808

def i64Max : ℤ := 9223372036854775807

/-- `i64::saturating_add`. -/
def saturatingAdd (a b : ℤ) : ℤ := max i64Min (min i64Max (a + b))

/-- `i64::saturating_sub`. -/
def saturatingSub (a b : ℤ) : ℤ := max i64Min (min i64Max (a - b))

/-- A day in milliseconds. -/
def dayMs : ℤ := 24 * 60 * 60 * 1000

/-- How long the owner can undo a soft delete. -/
def softDeleteRetentionMs : ℤ := 30 * dayMs

/-- How long a synchronization cursor is valid. -/
def noteSyncCursorRetentionMs : ℤ := 35 * dayMs

/-! ## Principals -/

/-- A subject an identity provider issued, already validated. -/
structure Identity where
  issuer : String
  subject : String
  deriving DecidableEq, Repr

/-- A principal with the identity shown for it. Two are the same principal when their
ids agree (`PrincipalRef.Same`). -/
structure PrincipalRef where
  id : PrincipalId
  primaryIdentity : Identity
  deriving DecidableEq, Repr

/-- `PartialEq for PrincipalRef`. -/
def PrincipalRef.Same (a b : PrincipalRef) : Prop := a.id = b.id

instance (a b : PrincipalRef) : Decidable (a.Same b) := inferInstanceAs (Decidable (a.id = b.id))

/-- The operating principal with the identity it logged in with. -/
structure Actor where
  principal : PrincipalRef
  authenticatedIdentity : Identity
  deriving DecidableEq, Repr

def Actor.principalId (actor : Actor) : PrincipalId := actor.principal.id

/-! ## Notes -/

inductive NoteCreationSource
  | web | rest | mcp | unknown
  deriving DecidableEq, Repr

/-- The operation that produced a revision. -/
inductive NoteRevisionKind
  | created | contentUpdated | aclUpdated | reviewed | deleted | restored | historyRestored
  | imported
  deriving DecidableEq, Repr

/-- What a principal may do with a note. -/
inductive NoteAccess
  | read | edit | manage
  deriving DecidableEq, Repr

/-- What the owner can share. -/
inductive NotePermission
  | read | edit
  deriving DecidableEq, Repr

structure NoteAclEntry where
  principal : PrincipalRef
  permission : NotePermission
  deriving DecidableEq, Repr

structure NoteDraft where
  title : String
  source : String
  tags : List String
  deriving DecidableEq, Repr

structure NoteReviewRecord where
  revision : ℕ
  reviewedAt : ℤ
  reviewer : PrincipalRef
  deriving DecidableEq, Repr

/-- Whether reviews were recorded at all, and the last one. -/
inductive NoteReviewTracking
  | unknown
  | tracked (lastReview : Option NoteReviewRecord)
  deriving DecidableEq, Repr

def NoteReviewTracking.pending : NoteReviewTracking := tracked none

def NoteReviewTracking.lastReview : NoteReviewTracking → Option NoteReviewRecord
  | unknown => none
  | tracked lastReview => lastReview

/-- The stored values a note is rebuilt from. -/
structure NoteRestore where
  noteId : NoteId
  owner : PrincipalRef
  draft : NoteDraft
  createdAt : ℤ
  updatedAt : ℤ
  revision : ℕ
  deletedAt : Option ℤ
  createdVia : NoteCreationSource
  review : NoteReviewTracking
  deriving DecidableEq, Repr

namespace NoteRestore

/-- A review lies within the note's lifetime and revisions, and is by its owner. -/
def ReviewConsistent (r : NoteRestore) (review : NoteReviewRecord) : Prop :=
  review.revision ≤ r.revision ∧ r.createdAt ≤ review.reviewedAt ∧
    review.reviewedAt ≤ r.updatedAt ∧ review.reviewer.Same r.owner

/-- The condition under which `Note::restore` accepts the values. -/
def Consistent (r : NoteRestore) : Prop :=
  r.createdAt ≤ r.updatedAt ∧
    (∀ deletedAt ∈ r.deletedAt, r.createdAt ≤ deletedAt ∧ deletedAt ≤ r.updatedAt) ∧
    ∀ review ∈ r.review.lastReview, r.ReviewConsistent review

instance (r : NoteRestore) (review : NoteReviewRecord) : Decidable (r.ReviewConsistent review) := by
  unfold ReviewConsistent
  infer_instance

instance (r : NoteRestore) : Decidable r.Consistent := by
  unfold Consistent
  infer_instance

end NoteRestore

/-- A note with consistent metadata. -/
structure Note extends NoteRestore where
  consistent : toNoteRestore.Consistent

instance : DecidableEq Note := fun a b =>
  decidable_of_iff (a.toNoteRestore = b.toNoteRestore)
    ⟨fun h => by cases a; cases b; simpa using h, fun h => h ▸ rfl⟩

namespace Note

/-- A new note : first revision, waiting for review. -/
def create (noteId : NoteId) (owner : PrincipalRef) (draft : NoteDraft) (createdAt : ℤ)
    (createdVia : NoteCreationSource) : Note where
  noteId := noteId
  owner := owner
  draft := draft
  createdAt := createdAt
  updatedAt := createdAt
  revision := initialRevision
  deletedAt := none
  createdVia := createdVia
  review := .pending
  consistent := ⟨le_refl _, by simp, by simp [NoteReviewTracking.pending,
    NoteReviewTracking.lastReview]⟩

/-- Rebuild a stored note, refused when its metadata is inconsistent. -/
def restore (r : NoteRestore) : Option Note :=
  if h : r.Consistent then some ⟨r, h⟩ else none

theorem restore_eq_some {r : NoteRestore} {note : Note} :
    restore r = some note ↔ note.toNoteRestore = r := by
  unfold restore
  split_ifs with h
  · rw [Option.some.injEq]
    constructor
    · rintro rfl
      rfl
    · rintro rfl
      rfl
  · simp only [false_iff]
    rintro rfl
    exact h note.consistent

/-- A stored note restores to itself. -/
theorem restore_toNoteRestore (note : Note) : restore note.toNoteRestore = some note :=
  restore_eq_some.mpr rfl

end Note

end Marginalis
