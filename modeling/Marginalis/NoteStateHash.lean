import Marginalis.DocumentExport

/-!
# The digest of a note's state

An export records a digest of every note : its owner, its source, who it is shared with and
the images its current revision shows. An import compares it with the digest of what it reads,
and takes a note for edited when they differ. `note_state_hash_inj` : the digests of two states
agree only when the states do, up to the order of the shares and of the images.

Texts stand behind their lengths, and after two of them an ACL entry has the number of its
permission, where an image has the length of the name of its media type, which begins with
a zero : so it is clear where the ACL ends.
-/

namespace Marginalis

open Framing
open Table (orderBy)

/-- What the digest of a note is made of. -/
structure NoteState where
  ownerIssuer : String
  ownerSubject : String
  source : List UInt8
  acl : List DocumentAclEntry
  attachments : List DocumentAttachment

/-- The image itself : where the export has put its file is not part of the note. -/
def DocumentAttachment.unplaced (attachment : DocumentAttachment) : DocumentAttachment :=
  { attachment with file := "" }

/-- A text in memory is shorter than `2 ^ 64` bytes. -/
def TextInRange (s : String) : Prop := (textBytes s).length < 2 ^ 64

instance (s : String) : Decidable (TextInRange s) :=
  decidable_of_iff (s.utf8ByteSize < 2 ^ 64) (by rw [TextInRange, length_textBytes])

structure DocumentAclEntry.InRange (entry : DocumentAclEntry) : Prop where
  issuer : TextInRange entry.issuer
  subject : TextInRange entry.subject

/-- The lengths and numbers of an image fit their types. -/
structure DocumentAttachment.InRange (attachment : DocumentAttachment) : Prop where
  attachmentId : TextInRange attachment.attachmentId
  fileName : TextInRange attachment.fileName
  sha256 : TextInRange attachment.sha256
  createdByIssuer : TextInRange attachment.createdByIssuer
  createdBySubject : TextInRange attachment.createdBySubject
  byteLength : attachment.byteLength < 2 ^ 64
  createdAt : -2 ^ 63 ≤ attachment.createdAt ∧ attachment.createdAt < 2 ^ 63

namespace NoteState

structure InRange (state : NoteState) : Prop where
  ownerIssuer : TextInRange state.ownerIssuer
  ownerSubject : TextInRange state.ownerSubject
  source : state.source.length < 2 ^ 64
  acl : ∀ entry ∈ state.acl, entry.InRange
  attachments : ∀ attachment ∈ state.attachments, attachment.InRange

/-- What `note_state_sha256` feeds to the hash. -/
def bytes (state : NoteState) : List UInt8 :=
  noteStateBytes state.ownerIssuer state.ownerSubject state.source state.acl state.attachments

def sha256 (lib : DocumentLibrary) (state : NoteState) : String :=
  noteStateSha256 lib state.ownerIssuer state.ownerSubject state.source state.acl
    state.attachments

/-- The same state, up to the order of ACL entries and attachments. -/
structure Same (state state' : NoteState) : Prop where
  ownerIssuer : state.ownerIssuer = state'.ownerIssuer
  ownerSubject : state.ownerSubject = state'.ownerSubject
  source : state.source = state'.source
  acl : state.acl.Perm state'.acl
  attachments : (state.attachments.map DocumentAttachment.unplaced).Perm
    (state'.attachments.map DocumentAttachment.unplaced)

end NoteState

/-! ## Reading the entries back -/

section Entries

variable {s s' : String} {t t' : List UInt8} {entry entry' : DocumentAclEntry}
  {attachment attachment' : DocumentAttachment} {acl acl' : List DocumentAclEntry}
  {attachments attachments' : List DocumentAttachment}

theorem text_append_inj (hs : TextInRange s) (hs' : TextInRange s')
    (h : frame (textBytes s) ++ t = frame (textBytes s') ++ t') : s = s' ∧ t = t' := by
  obtain ⟨hbytes, hrest⟩ := frame_append_inj hs hs' h
  exact ⟨textBytes_inj hbytes, hrest⟩

theorem mediaType_inRange (mediaType : AttachmentMediaType) : TextInRange mediaType.asStr := by
  cases mediaType <;> decide

theorem mediaType_asStr_inj {mediaType mediaType' : AttachmentMediaType}
    (h : mediaType.asStr = mediaType'.asStr) : mediaType = mediaType' := by
  cases mediaType <;> cases mediaType' <;> first | rfl | exact absurd h (by decide)

/-- The frame of a short text begins with a zero. -/
theorem head?_frame_mediaType (mediaType : AttachmentMediaType) :
    (frame (textBytes mediaType.asStr) ++ t).head? = some 0 := by
  unfold frame
  rw [length_textBytes]
  cases mediaType <;> rfl

theorem stateByte_ne_zero (permission : NotePermission) : permission.stateByte ≠ 0 := by
  cases permission <;> decide

theorem stateByte_inj {permission permission' : NotePermission}
    (h : permission.stateByte = permission'.stateByte) : permission = permission' := by
  cases permission <;> cases permission' <;> first | rfl | exact absurd h (by decide)

theorem aclStateBytes_append_inj (hrange : entry.InRange) (hrange' : entry'.InRange)
    (h : entry.stateBytes ++ t = entry'.stateBytes ++ t') : entry = entry' ∧ t = t' := by
  simp only [DocumentAclEntry.stateBytes, List.append_assoc, List.singleton_append] at h
  obtain ⟨hissuer, h⟩ := text_append_inj hrange.issuer hrange'.issuer h
  obtain ⟨hsubject, h⟩ := text_append_inj hrange.subject hrange'.subject h
  obtain ⟨hpermission, h⟩ := List.cons.inj h
  refine ⟨?_, h⟩
  rw [DocumentAclEntry.mk.injEq]
  exact ⟨hissuer, hsubject, stateByte_inj hpermission⟩

theorem attachmentStateBytes_append (t : List UInt8) : attachment.stateBytes ++ t =
    frame (textBytes attachment.attachmentId) ++ (frame (textBytes attachment.fileName) ++
      (frame (textBytes attachment.mediaType.asStr) ++ (frame (textBytes attachment.sha256) ++
        (frame (textBytes attachment.createdByIssuer) ++
          (frame (textBytes attachment.createdBySubject) ++
            (bigEndian 8 attachment.byteLength ++ (int64 attachment.createdAt ++ t))))))) := by
  simp [DocumentAttachment.stateBytes]

theorem attachmentStateBytes_append_inj (hrange : attachment.InRange)
    (hrange' : attachment'.InRange)
    (h : attachment.stateBytes ++ t = attachment'.stateBytes ++ t') :
    attachment.unplaced = attachment'.unplaced ∧ t = t' := by
  rw [attachmentStateBytes_append, attachmentStateBytes_append] at h
  obtain ⟨hid, h⟩ := text_append_inj hrange.attachmentId hrange'.attachmentId h
  obtain ⟨hname, h⟩ := text_append_inj hrange.fileName hrange'.fileName h
  obtain ⟨htype, h⟩ := text_append_inj (mediaType_inRange _) (mediaType_inRange _) h
  obtain ⟨hsha, h⟩ := text_append_inj hrange.sha256 hrange'.sha256 h
  obtain ⟨hissuer, h⟩ := text_append_inj hrange.createdByIssuer hrange'.createdByIssuer h
  obtain ⟨hsubject, h⟩ := text_append_inj hrange.createdBySubject hrange'.createdBySubject h
  obtain ⟨hlength, h⟩ := List.append_inj h (by simp)
  obtain ⟨htime, h⟩ := List.append_inj h (by simp)
  have hlength := bigEndian_inj hrange.byteLength hrange'.byteLength hlength
  have htime := int64_inj hrange.createdAt hrange'.createdAt htime
  have htype := mediaType_asStr_inj htype
  refine ⟨?_, h⟩
  simp only [DocumentAttachment.unplaced, DocumentAttachment.mk.injEq]
  exact ⟨trivial, hid, hname, htype, hlength, hsha, htime, hissuer, hsubject⟩

/-- An ACL entry is not read as an image. -/
theorem aclStateBytes_ne_attachmentStateBytes (hentry : entry.InRange)
    (hattachment : attachment.InRange) :
    entry.stateBytes ++ t ≠ attachment.stateBytes ++ t' := by
  intro h
  rw [attachmentStateBytes_append, DocumentAclEntry.stateBytes, List.append_assoc,
    List.append_assoc] at h
  obtain ⟨-, h⟩ := text_append_inj hentry.issuer hattachment.attachmentId h
  obtain ⟨-, h⟩ := text_append_inj hentry.subject hattachment.fileName h
  have hhead := congrArg List.head? h
  rw [head?_frame_mediaType, List.singleton_append, List.head?_cons] at hhead
  exact stateByte_ne_zero _ (Option.some.inj hhead)

theorem attachmentsBytes_inj (hrange : ∀ attachment ∈ attachments, attachment.InRange)
    (hrange' : ∀ attachment ∈ attachments', attachment.InRange)
    (h : attachments.flatMap DocumentAttachment.stateBytes =
      attachments'.flatMap DocumentAttachment.stateBytes) :
    attachments.map DocumentAttachment.unplaced = attachments'.map DocumentAttachment.unplaced := by
  have hempty : ∀ {attachment : DocumentAttachment} {t : List UInt8},
      attachment.stateBytes ++ t ≠ [] := fun h => by
    rw [attachmentStateBytes_append] at h
    exact frame_ne_nil h
  induction attachments generalizing attachments' with
  | nil =>
    rcases attachments' with - | ⟨attachment', attachments'⟩
    · rfl
    · exact absurd h.symm hempty
  | cons attachment attachments ih =>
    rcases attachments' with - | ⟨attachment', attachments'⟩
    · exact absurd h hempty
    · obtain ⟨hhead, hrest⟩ := attachmentStateBytes_append_inj (hrange attachment (by simp))
        (hrange' attachment' (by simp)) h
      rw [List.map_cons, List.map_cons, hhead,
        ih (fun a ha => hrange a (by simp [ha])) (fun a ha => hrange' a (by simp [ha])) hrest]

/-- The ACL and the images are read back from the bytes behind each other. -/
theorem entriesBytes_inj (hacl : ∀ entry ∈ acl, entry.InRange)
    (hacl' : ∀ entry ∈ acl', entry.InRange)
    (hattachments : ∀ attachment ∈ attachments, attachment.InRange)
    (hattachments' : ∀ attachment ∈ attachments', attachment.InRange)
    (h : acl.flatMap DocumentAclEntry.stateBytes ++
        attachments.flatMap DocumentAttachment.stateBytes =
      acl'.flatMap DocumentAclEntry.stateBytes ++
        attachments'.flatMap DocumentAttachment.stateBytes) :
    acl = acl' ∧ attachments.map DocumentAttachment.unplaced =
      attachments'.map DocumentAttachment.unplaced := by
  -- The bytes of an ACL entry are neither the end nor those of an image.
  have hkind : ∀ {entry : DocumentAclEntry} {attachments : List DocumentAttachment}
      {t : List UInt8}, entry.InRange → (∀ attachment ∈ attachments, attachment.InRange) →
      entry.stateBytes ++ t ≠ attachments.flatMap DocumentAttachment.stateBytes := by
    intro entry attachments t hentry hattachments h
    rcases attachments with - | ⟨attachment, attachments⟩
    · rw [DocumentAclEntry.stateBytes, List.append_assoc, List.append_assoc] at h
      exact frame_ne_nil h
    · exact aclStateBytes_ne_attachmentStateBytes hentry (hattachments attachment (by simp)) h
  induction acl generalizing acl' with
  | nil =>
    rcases acl' with - | ⟨entry', acl'⟩
    · exact ⟨rfl, attachmentsBytes_inj hattachments hattachments' h⟩
    · rw [List.flatMap_cons, List.append_assoc] at h
      exact absurd h.symm (hkind (hacl' entry' (by simp)) hattachments)
  | cons entry acl ih =>
    rw [List.flatMap_cons, List.append_assoc] at h
    rcases acl' with - | ⟨entry', acl'⟩
    · exact absurd h (hkind (hacl entry (by simp)) hattachments')
    · rw [List.flatMap_cons, List.append_assoc] at h
      obtain ⟨rfl, hrest⟩ := aclStateBytes_append_inj (hacl entry (by simp))
        (hacl' entry' (by simp)) h
      obtain ⟨rfl, hattached⟩ := ih (fun e he => hacl e (by simp [he]))
        (fun e he => hacl' e (by simp [he])) hrest
      exact ⟨rfl, hattached⟩

end Entries

/-! ## The state -/

namespace NoteState

variable {state state' : NoteState}

/-- The bytes determine the state. -/
theorem same_of_bytes_eq (hrange : state.InRange) (hrange' : state'.InRange)
    (h : state.bytes = state'.bytes) : state.Same state' := by
  simp only [bytes, noteStateBytes, List.append_assoc] at h
  obtain ⟨hissuer, h⟩ := text_append_inj hrange.ownerIssuer hrange'.ownerIssuer h
  obtain ⟨hsubject, h⟩ := text_append_inj hrange.ownerSubject hrange'.ownerSubject h
  obtain ⟨hsource, h⟩ := frame_append_inj hrange.source hrange'.source h
  obtain ⟨hacl, hattachments⟩ := entriesBytes_inj
    (fun entry hentry => hrange.acl entry (Table.mem_orderBy.mp hentry))
    (fun entry hentry => hrange'.acl entry (Table.mem_orderBy.mp hentry))
    (fun a ha => hrange.attachments a (Table.mem_orderBy.mp ha))
    (fun a ha => hrange'.attachments a (Table.mem_orderBy.mp ha)) h
  refine ⟨hissuer, hsubject, hsource, ?_, ?_⟩
  · exact List.Perm.trans (List.Perm.symm Table.orderBy_perm)
      (List.Perm.trans (List.Perm.of_eq hacl) Table.orderBy_perm)
  · exact List.Perm.trans (List.Perm.symm (List.Perm.map _ Table.orderBy_perm))
      (List.Perm.trans (List.Perm.of_eq hattachments) (List.Perm.map _ Table.orderBy_perm))

/-- Two states with the same bytes are the same, and so are two states with the same digest when
SHA-256 does not collide on them. -/
theorem note_state_hash_inj (lib : DocumentLibrary)
    (hdigest : ∀ bytes, lib.sha256 bytes < 2 ^ 256) (hrange : state.InRange)
    (hrange' : state'.InRange) :
    (state.bytes = state'.bytes → state.Same state') ∧
    ((lib.sha256 state.bytes = lib.sha256 state'.bytes → state.bytes = state'.bytes) →
      state.sha256 lib = state'.sha256 lib → state.Same state') := by
  refine ⟨same_of_bytes_eq hrange hrange', fun hcollision h => ?_⟩
  have hdigits : Uuid.hex 64 (lib.sha256 state.bytes) = Uuid.hex 64 (lib.sha256 state'.bytes) :=
    String.ofList_inj.mp h
  have hpow : (16 : ℕ) ^ 64 = 2 ^ 256 := by decide
  have hequal := Uuid.hex_inj (by rw [hpow]; exact hdigest _) (by rw [hpow]; exact hdigest _)
    hdigits
  exact same_of_bytes_eq hrange hrange' (hcollision hequal)

/-- A note shared with two readers, in one order or the other. -/
def sampleShared (swapped : Bool) : NoteState where
  ownerIssuer := "https://id.example"
  ownerSubject := "alice"
  source := [61, 32, 97]
  acl :=
    if swapped then [⟨"https://id.example", "carol", .read⟩, ⟨"https://id.example", "bob", .edit⟩]
    else [⟨"https://id.example", "bob", .edit⟩, ⟨"https://id.example", "carol", .read⟩]
  attachments := [⟨"a/attachments/1-b.png", "1", "b.png", .png, 24, "00", 5,
    "https://id.example", "alice"⟩]

theorem sampleShared_inRange (swapped : Bool) : (sampleShared swapped).InRange where
  ownerIssuer := by cases swapped <;> decide
  ownerSubject := by cases swapped <;> decide
  source := by cases swapped <;> decide
  acl entry hentry := by
    have hentries : entry = ⟨"https://id.example", "bob", .edit⟩ ∨
        entry = ⟨"https://id.example", "carol", .read⟩ := by
      cases swapped <;> simpa [sampleShared, or_comm] using hentry
    rcases hentries with rfl | rfl
    · exact ⟨by decide, by decide⟩
    · exact ⟨by decide, by decide⟩
  attachments attachment hattachment := by
    rw [List.mem_singleton.mp hattachment]
    exact ⟨by decide, by decide, by decide, by decide, by decide, by decide, by decide⟩

/-- SHA-256 of these states. -/
def sharedLibrary : DocumentLibrary where
  sha256 _ := 0xf8b32ab6defe3801c5e43c56cc33f26e0c5719a334293632d52d0f783b6e0304
  prettyArray _ := "[]"

/-- The two orders have the same bytes. -/
theorem note_state_hash_inj_sampleShared :
    (sampleShared true).bytes = (sampleShared false).bytes ∧
    ((sampleShared true).bytes = (sampleShared false).bytes →
      (sampleShared true).Same (sampleShared false)) ∧
    ((sharedLibrary.sha256 (sampleShared true).bytes =
        sharedLibrary.sha256 (sampleShared false).bytes →
        (sampleShared true).bytes = (sampleShared false).bytes) →
      (sampleShared true).sha256 sharedLibrary = (sampleShared false).sha256 sharedLibrary →
        (sampleShared true).Same (sampleShared false)) :=
  ⟨by decide +kernel, note_state_hash_inj sharedLibrary (fun _ => of_decide_eq_true rfl)
    (sampleShared_inRange true)
    (sampleShared_inRange false)⟩

end NoteState

end Marginalis
