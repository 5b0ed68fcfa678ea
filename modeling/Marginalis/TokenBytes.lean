import Marginalis.Framing
import Marginalis.ImportOutcome
import Marginalis.Uuid

/-!
# The bytes of a preview token

`import_state_token` feeds its components to SHA-256 as length-prefixed byte strings, with no
mark between the links and the items that follow them. The digest of a link takes 32 bytes and
the revision of an item eight, so the bytes tell them apart, and they determine what the token
covers : the selected source, the file, the stored source, its links, and the id and revision
of every item.
-/

namespace Marginalis

open Framing

/-! ## Components as bytes -/

/-- The bytes of a component : an id is written as its text, a number as an `i64`, and a digest
as its 32 bytes. -/
def TokenComponent.bytes : TokenComponent → List UInt8
  | text value => textBytes value
  | id entityId => textBytes (String.ofList (Uuid.text entityId))
  | int value => int64 value
  | digest value => bigEndian 32 value

/-- The values fit the types of the source : a text in memory, a UUID, an `i64`, a digest. -/
def TokenComponent.InRange : TokenComponent → Prop
  | text value => value.utf8ByteSize < 2 ^ 64
  | id entityId => entityId < 2 ^ 128
  | int value => -2 ^ 63 ≤ value ∧ value < 2 ^ 63
  | digest value => value < 2 ^ 256

instance : DecidablePred TokenComponent.InRange
  | .text value => inferInstanceAs (Decidable (value.utf8ByteSize < 2 ^ 64))
  | .id entityId => inferInstanceAs (Decidable (entityId < 2 ^ 128))
  | .int value => inferInstanceAs (Decidable (-2 ^ 63 ≤ value ∧ value < 2 ^ 63))
  | .digest value => inferInstanceAs (Decidable (value < 2 ^ 256))

/-- The bytes that are hashed. -/
def tokenBytes (components : List TokenComponent) : List UInt8 :=
  frames (components.map TokenComponent.bytes)

def importStateBytes (lib : ImportLibrary) (input : BibliographyImportInput)
    (state : BibliographyImportState lib.json) : List UInt8 :=
  tokenBytes (importStateComponents lib input state)

variable {components components' : List TokenComponent} {m n : ℕ}

theorem length_idText : (textBytes (String.ofList (Uuid.text n))).length = 36 := by
  rw [length_textBytes_ofList, Uuid.length_text]
  intro c hc
  rcases Uuid.mem_text hc with rfl | ⟨d, hd, rfl⟩
  · rfl
  · have hdigits : ∀ d < 16, (Nat.digitChar d).utf8Size = 1 := by decide
    exact hdigits d hd

theorem idText_inj (hm : m < 2 ^ 128) (hn : n < 2 ^ 128)
    (h : textBytes (String.ofList (Uuid.text m)) = textBytes (String.ofList (Uuid.text n))) :
    m = n :=
  Uuid.text_inj hm hn (String.ofList_injective (textBytes_inj h))

theorem TokenComponent.length_bytes_lt {component : TokenComponent} (h : component.InRange) :
    component.bytes.length < 2 ^ 64 := by
  cases component with
  | text value => exact h
  | id entityId => simp [bytes, length_idText]
  | int value => simp [bytes]
  | digest value => simp [bytes]

/-- The frames can be read back to the bytes of the components. -/
theorem tokenBytes_inj (hrange : ∀ component ∈ components, component.InRange)
    (hrange' : ∀ component ∈ components', component.InRange)
    (h : tokenBytes components = tokenBytes components') :
    components.map TokenComponent.bytes = components'.map TokenComponent.bytes := by
  refine frames_inj ?_ ?_ h
  · intro part hpart
    obtain ⟨component, hmem, rfl⟩ := List.mem_map.mp hpart
    exact TokenComponent.length_bytes_lt (hrange component hmem)
  · intro part hpart
    obtain ⟨component, hmem, rfl⟩ := List.mem_map.mp hpart
    exact TokenComponent.length_bytes_lt (hrange' component hmem)

/-! ## Reading the components back -/

/-- Components of one kind with the same bytes are the same. -/
theorem TokenComponent.bytes_inj {c c' : TokenComponent} (hkind : c.ctorIdx = c'.ctorIdx)
    (hrange : c.InRange) (hrange' : c'.InRange) (h : c.bytes = c'.bytes) : c = c' := by
  cases c <;> cases c' <;> try cases hkind
  · exact congrArg text (textBytes_inj h)
  · exact congrArg id (idText_inj hrange hrange' h)
  · exact congrArg int (int64_inj hrange hrange' h)
  · have hwidth : (256 : ℕ) ^ 32 = 2 ^ 256 := by omega
    refine congrArg digest (bigEndian_inj ?_ ?_ h)
    · exact hwidth ▸ hrange
    · exact hwidth ▸ hrange'

/-- So do sequences of the same kinds, before anything else. -/
theorem components_eq {s t : List (List UInt8)}
    (hrange : ∀ c ∈ components, c.InRange) (hrange' : ∀ c ∈ components', c.InRange)
    (hkinds : components.map TokenComponent.ctorIdx = components'.map TokenComponent.ctorIdx)
    (h : components.map TokenComponent.bytes ++ s = components'.map TokenComponent.bytes ++ t) :
    components = components' ∧ s = t := by
  induction components generalizing components' with
  | nil =>
    have hnil : components' = [] := by simpa using hkinds.symm
    subst hnil
    exact ⟨rfl, h⟩
  | cons c components ih =>
    rcases components' with - | ⟨c', components'⟩
    · cases hkinds
    · obtain ⟨hkind, hkinds⟩ := List.cons.inj hkinds
      obtain ⟨hbytes, hrest⟩ := List.cons.inj h
      have hc := TokenComponent.bytes_inj hkind (hrange c (by simp)) (hrange' c' (by simp)) hbytes
      obtain ⟨hcomponents, hst⟩ := ih (fun d hd => hrange d (by simp [hd]))
        (fun d hd => hrange' d (by simp [hd])) hkinds hrest
      exact ⟨by rw [hc, hcomponents], hst⟩

variable {lib : ImportLibrary} {input input' : BibliographyImportInput}
  {a b : BibliographyImportState lib.json} {s t : List (List UInt8)}

theorem inputBytes_inj (hrange : ∀ c ∈ inputComponents lib input, c.InRange)
    (hrange' : ∀ c ∈ inputComponents lib input', c.InRange)
    (h : (inputComponents lib input).map TokenComponent.bytes ++ s =
      (inputComponents lib input').map TokenComponent.bytes ++ t) :
    (input.source = input'.source ∧
      lib.json.encode (.array input.items) = lib.json.encode (.array input'.items)) ∧ s = t := by
  obtain ⟨source, items⟩ := input
  obtain ⟨source', items'⟩ := input'
  have hselect : "new" ≠ "existing" := by decide
  rcases source with name | ⟨⟨id⟩⟩ <;> rcases source' with name' | ⟨⟨id'⟩⟩
  · obtain ⟨heq, hst⟩ := components_eq hrange hrange' rfl h
    simp only [inputComponents, List.cons_append, List.nil_append, List.cons.injEq,
      TokenComponent.text.injEq] at heq
    exact ⟨⟨by rw [heq.2.2.1], heq.2.2.2.1⟩, hst⟩
  · exact absurd (textBytes_inj (List.cons.inj (List.cons.inj h).2).1) hselect
  · exact absurd (textBytes_inj (List.cons.inj (List.cons.inj h).2).1).symm hselect
  · obtain ⟨heq, hst⟩ := components_eq hrange hrange' rfl h
    simp only [inputComponents, List.cons_append, List.nil_append, List.cons.injEq,
      TokenComponent.id.injEq, TokenComponent.text.injEq] at heq
    exact ⟨⟨by rw [heq.2.2.1], heq.2.2.2.1⟩, hst⟩

/-- What the token covers of a source : its owner by the identity that is shown for it. -/
def BibliographyImportSource.previewed (source : BibliographyImportSource) :
    BibliographyImportSourceId × Identity × String × ℕ × ℤ × ℤ :=
  (source.sourceId, source.owner.primaryIdentity, source.displayName, source.revision,
    source.createdAt, source.lastImportedAt)

theorem sourceBytes_inj {source source' : Option BibliographyImportSource}
    (hrange : ∀ c ∈ sourceComponents source, c.InRange)
    (hrange' : ∀ c ∈ sourceComponents source', c.InRange)
    (h : (sourceComponents source).map TokenComponent.bytes ++ s =
      (sourceComponents source').map TokenComponent.bytes ++ t) :
    source.map BibliographyImportSource.previewed =
      source'.map BibliographyImportSource.previewed ∧ s = t := by
  -- A missing source has a mark that is shorter than an id.
  have hmark : ∀ id, textBytes "no-source" ≠ textBytes (String.ofList (Uuid.text id)) := by
    intro id hid
    have hlength := congrArg List.length hid
    rw [length_idText] at hlength
    cases hlength
  rcases source with - | source <;> rcases source' with - | source'
  · exact ⟨rfl, (List.cons.inj h).2⟩
  · exact absurd (List.cons.inj h).1 (hmark _)
  · exact absurd (List.cons.inj h).1.symm (hmark _)
  · obtain ⟨heq, hst⟩ := components_eq hrange hrange' rfl h
    obtain ⟨⟨id⟩, ⟨owner, issuer, subject⟩, name, revision, createdAt, lastImportedAt⟩ := source
    obtain ⟨⟨id'⟩, ⟨owner', issuer', subject'⟩, name', revision', createdAt', lastImportedAt'⟩ :=
      source'
    simp only [sourceComponents, List.cons.injEq, TokenComponent.id.injEq,
      TokenComponent.text.injEq, TokenComponent.int.injEq, Int.natCast_inj] at heq
    refine ⟨?_, hst⟩
    simp only [Option.map_some, BibliographyImportSource.previewed, Option.some.injEq,
      Prod.mk.injEq, BibliographyImportSourceId.mk.injEq, Identity.mk.injEq]
    tauto

/-- An item after an item, or nothing, is no link : its revision is shorter than a digest. -/
theorem linkBytes_ne_itemBytes {link : BibliographyImportLink}
    {items : List (BibliographyItem lib.json)} :
    (linkComponents link).map TokenComponent.bytes ++ s ≠
      (items.flatMap itemComponents).map TokenComponent.bytes := by
  intro h
  rcases items with - | ⟨item, - | ⟨item', items⟩⟩
  · cases h
  · cases (List.cons.inj (List.cons.inj h).2).2
  · have hdigest := (List.cons.inj (List.cons.inj (List.cons.inj (List.cons.inj h).2).2).2).1
    have hlength := congrArg List.length hdigest
    rw [TokenComponent.bytes, TokenComponent.bytes, length_bigEndian, length_int64] at hlength
    cases hlength

theorem itemBytes_inj {items items' : List (BibliographyItem lib.json)}
    (hrange : ∀ c ∈ items.flatMap itemComponents, c.InRange)
    (hrange' : ∀ c ∈ items'.flatMap itemComponents, c.InRange)
    (h : (items.flatMap itemComponents).map TokenComponent.bytes =
      (items'.flatMap itemComponents).map TokenComponent.bytes) :
    items.flatMap itemComponents = items'.flatMap itemComponents := by
  induction items generalizing items' with
  | nil =>
    rcases items' with - | ⟨item', items'⟩
    · rfl
    · cases h
  | cons item items ih =>
    rcases items' with - | ⟨item', items'⟩
    · cases h
    · simp only [List.flatMap_cons, List.map_append, List.forall_mem_append] at h hrange hrange' ⊢
      obtain ⟨heq, hrest⟩ := components_eq hrange.1 hrange'.1 rfl h
      rw [heq, ih hrange.2 hrange'.2 hrest]

theorem linkBytes_inj {links links' : List BibliographyImportLink}
    {items items' : List (BibliographyItem lib.json)}
    (hrange : ∀ c ∈ links.flatMap linkComponents ++ items.flatMap itemComponents, c.InRange)
    (hrange' : ∀ c ∈ links'.flatMap linkComponents ++ items'.flatMap itemComponents, c.InRange)
    (h : (links.flatMap linkComponents ++ items.flatMap itemComponents).map TokenComponent.bytes =
      (links'.flatMap linkComponents ++ items'.flatMap itemComponents).map TokenComponent.bytes) :
    links.flatMap linkComponents ++ items.flatMap itemComponents =
      links'.flatMap linkComponents ++ items'.flatMap itemComponents := by
  induction links generalizing links' with
  | nil =>
    rcases links' with - | ⟨link', links'⟩
    · exact itemBytes_inj hrange hrange' h
    · rw [List.flatMap_cons, List.append_assoc, List.map_append] at h
      exact absurd h.symm linkBytes_ne_itemBytes
  | cons link links ih =>
    rcases links' with - | ⟨link', links'⟩
    · rw [List.flatMap_cons, List.append_assoc, List.map_append] at h
      exact absurd h linkBytes_ne_itemBytes
    · simp only [List.flatMap_cons, List.append_assoc] at h hrange hrange' ⊢
      rw [List.forall_mem_append] at hrange hrange'
      simp only [List.map_append] at h
      obtain ⟨heq, hrest⟩ := components_eq hrange.1 hrange'.1 rfl h
      rw [← List.map_append, ← List.map_append] at hrest
      rw [heq, ih hrange.2 hrange'.2 hrest]

/-! ## What a token binds -/

/-- Two planning states agree : in the selected source, the file, the stored source, and, up to
order, in the links and in the ids and revisions of the items. -/
structure SamePlanning (input input' : BibliographyImportInput)
    (a b : BibliographyImportState lib.json) : Prop where
  selection : input.source = input'.source
  entries : lib.json.encode (.array input.items) = lib.json.encode (.array input'.items)
  source : a.source.map BibliographyImportSource.previewed =
    b.source.map BibliographyImportSource.previewed
  links : a.links.Perm b.links
  items : (a.items.map fun item => (item.itemId, item.revision)).Perm
    (b.items.map fun item => (item.itemId, item.revision))

/-- The entries of a file are read back as they were printed. -/
def BibliographyImportInput.Rereads (json : JsonCodec) (input : BibliographyImportInput) : Prop :=
  json.parse (json.encode (.array input.items)) = some (.array input.items)

/-- Entries that are read back are the same when their texts are. -/
theorem SamePlanning.input_eq (h : SamePlanning input input' a b)
    (hread : input.Rereads lib.json) (hread' : input'.Rereads lib.json) : input = input' := by
  unfold BibliographyImportInput.Rereads at hread hread'
  rw [h.entries, hread', Option.some.injEq, Json.array.injEq] at hread
  obtain ⟨source, items⟩ := input
  obtain rfl : source = input'.source := h.selection
  obtain rfl : input'.items = items := hread
  rfl

/-- The bytes determine the planning state. -/
theorem importStateBytes_inj (hrange : ∀ c ∈ importStateComponents lib input a, c.InRange)
    (hrange' : ∀ c ∈ importStateComponents lib input' b, c.InRange)
    (h : importStateBytes lib input a = importStateBytes lib input' b) :
    SamePlanning input input' a b := by
  have hbytes := tokenBytes_inj hrange hrange' h
  rw [importStateComponents_eq] at hrange hrange' hbytes
  rw [importStateComponents_eq] at hbytes
  simp only [List.forall_mem_append] at hrange hrange'
  simp only [List.map_append] at hbytes
  obtain ⟨hinput, hbytes⟩ := inputBytes_inj hrange.1 hrange'.1 hbytes
  obtain ⟨hsource, hbytes⟩ := sourceBytes_inj hrange.2.1 hrange'.2.1 hbytes
  rw [← List.map_append, ← List.map_append] at hbytes
  obtain ⟨hlinks, hitems⟩ := linkComponents_inj (linkBytes_inj
    (List.forall_mem_append.mpr hrange.2.2) (List.forall_mem_append.mpr hrange'.2.2) hbytes)
  refine ⟨hinput.1, hinput.2, hsource, ?_, ?_⟩
  · have ha : a.canonicalized.links.Perm a.links := List.perm_insertionSort _ _
    have hb : b.canonicalized.links.Perm b.links := List.perm_insertionSort _ _
    exact ha.symm.trans (hlinks ▸ hb)
  · have ha : a.canonicalized.items.Perm a.items := List.perm_insertionSort _ _
    have hb : b.canonicalized.items.Perm b.items := List.perm_insertionSort _ _
    refine (ha.map _).symm.trans ?_
    rw [itemComponents_inj hitems]
    exact hb.map _

/-- Two planning states with the same bytes agree, and have the same entries when serde_json reads
back what it prints of them. So when SHA-256 does not collide on them, a
commit that was planned with the token of a preview was planned from the input and state of that
preview, and it is written only to a library that is still in this state. -/
theorem preview_token_binds (hrange : ∀ c ∈ importStateComponents lib input a, c.InRange)
    (hrange' : ∀ c ∈ importStateComponents lib input' b, c.InRange) :
    (importStateBytes lib input a = importStateBytes lib input' b → SamePlanning input input' a b ∧
      (input.Rereads lib.json → input'.Rereads lib.json → input = input')) ∧
      ∀ (db target : Database) (actor : Actor) (decisions : List BibliographyImportDecision)
        (importedAt : ℤ) (newId : BibliographyImportSourceId) (itemIds : ℕ → BibliographyItemId)
        (commit : BibliographyImportCommit lib.json)
        (applied : BibliographyImportResult × Database),
        (lib.sha256Hex (importStateComponents lib input a) =
            lib.sha256Hex (importStateComponents lib input' b) →
          importStateBytes lib input a = importStateBytes lib input' b) →
        commit.expectedState = b →
        planImport lib db actor input' decisions (importStateToken lib input a) importedAt newId
          itemIds = .ok commit →
        target.applyImport lib actor commit = .ok applied →
        SamePlanning input input' a commit.expectedState ∧
          ∃ current, target.loadState lib actor
              (commit.expectedState.source.map BibliographyImportSource.sourceId) = .ok current ∧
            current.Same commit.expectedState := by
  refine ⟨fun h => ⟨importStateBytes_inj hrange hrange' h,
    (importStateBytes_inj hrange hrange' h).input_eq⟩, ?_⟩
  intro db target actor decisions importedAt newId itemIds commit applied hcollision hb hplan happly
  obtain ⟨preview, state, source, -, -, htoken, hisplan⟩ := planImport_eq_ok hplan
  have hstate : state = b := by rw [← hisplan.expectedState_eq, hb]
  subst hstate
  rw [hb]
  obtain ⟨-, -, hcurrent, -⟩ := Database.applyImport_eq_ok.mp happly
  rw [hb] at hcurrent
  exact ⟨importStateBytes_inj hrange hrange' (hcollision htoken), hcurrent⟩

theorem validSourceName_zotero : ValidSourceName "Zotero" := by
  decide +kernel

theorem created_le_imported : (100 : ℤ) ≤ 200 := by
  decide

/-- A reader that knows the file of the second import. -/
def fileLibrary : ImportLibrary := sampleImportLibrary [.array secondFile.items]

/-- A source of Alice with two links, read in either order. -/
def twoLinks (links : List (String × ℕ)) : BibliographyImportState fileLibrary.json where
  source := some ⟨⟨1⟩, Database.alice.principal, "Zotero", 2, 100, 200, Nat.two_pos,
    validSourceName_zotero, created_le_imported⟩
  links := links.filterMap fun link => BibliographyImportLink.new ⟨1⟩ link.1 ⟨link.2⟩ 7 1
  items := []

theorem preview_token_binds_twoLinks :
    secondFile.Rereads fileLibrary.json ∧
      SamePlanning secondFile secondFile (twoLinks [("doe", 1), ("roe", 2)])
        (twoLinks [("roe", 2), ("doe", 1)]) := by
  have hcomponents :
      importStateComponents fileLibrary secondFile (twoLinks [("doe", 1), ("roe", 2)]) =
        importStateComponents fileLibrary secondFile (twoLinks [("roe", 2), ("doe", 1)]) := by
    decide +kernel
  have hrange : ∀ c ∈ importStateComponents fileLibrary secondFile
      (twoLinks [("doe", 1), ("roe", 2)]), c.InRange := by
    decide +kernel
  have hread : secondFile.Rereads fileLibrary.json := by
    unfold BibliographyImportInput.Rereads fileLibrary sampleImportLibrary sampleJsonCodec
    simp [sampleEncode, sampleParse]
  exact ⟨hread, ((preview_token_binds hrange (hcomponents ▸ hrange)).1
    (congrArg tokenBytes hcomponents)).1⟩

end Marginalis
