import Marginalis.NoteClock
import Marginalis.Snapshot

/-!
# The stored macros of a user

A user replaces all macros at once, at the revision of those the form has loaded. The first list
is inserted, and a later one updates the row at the expected revision. Both are one statement, so
the settings are a log that is only ever appended to : the revision counts the lists that were
stored, a request is refused unless it has seen all of them, and what is read is the last one
(`math_macro_settings_log`).
-/

namespace Marginalis

/-- The printer and the parser of `Vec<StoredMathMacro>`. -/
structure MathMacroCodec where
  encode : List MathMacro → String
  decode : String → Option (List MathMacro)

/-- A list is read back as it was written. -/
def MathMacroCodec.Rereads (codec : MathMacroCodec) (macros : List MathMacro) : Prop :=
  codec.decode (codec.encode macros) = some macros

instance (codec : MathMacroCodec) (macros : List MathMacro) : Decidable (codec.Rereads macros) := by
  unfold MathMacroCodec.Rereads
  infer_instance

/-- `From<StorageError> for MathMacroUseCaseError`. -/
def StorageError.toMathMacroUseCaseError : StorageError → MathMacroUseCaseError
  | conflict => .conflict
  | corruptData => .corruptData
  | notFound | retentionExpired | unavailable => .unavailable

namespace Database

variable (codec : MathMacroCodec) (db : Database)

/-! ## The repository -/

/-- `decode_settings`. -/
def decodeSettings (row : MathMacroRow) : Except StorageError MathMacroSettings :=
  if row.revision = 0 then .error .corruptData
  else
    match codec.decode row.macrosJson with
    | none => .error .corruptData
    | some macros =>
      match validateStoredMathMacros macros with
      | .error _ => .error .corruptData
      | .ok () => .ok ⟨macros, row.revision⟩

/-- `read_math_macros`. An owner without settings has the default ones. -/
def readMathMacros (owner : PrincipalId) : Except StorageError MathMacroSettings :=
  match db.mathMacroSettings.find owner with
  | none => .ok ⟨[], 0⟩
  | some row => decodeSettings codec row

/-- `replace_math_macros` of the repository. -/
def storeMathMacros (owner : PrincipalId) (macros : List MathMacro) (expectedRevision : ℤ) :
    Except StorageError (MathMacroSettings × Database) :=
  if expectedRevision = 0 then
    if (db.principals.find owner).isNone then .error .unavailable
    else
      match db.mathMacroSettings.insert? ⟨owner, codec.encode macros, 1⟩ with
      | none => .error .conflict
      | some rows => .ok (⟨macros, 1⟩, { db with mathMacroSettings := rows })
  else
    match (db.mathMacroSettings.find owner).filter
      fun row => (row.revision : ℤ) = expectedRevision with
    | none => .error .conflict
    | some row =>
      .ok (⟨macros, row.revision + 1⟩, { db with
        mathMacroSettings := db.mathMacroSettings.upsert
          ⟨owner, codec.encode macros, row.revision + 1⟩ })

/-! ## The use case -/

/-- `replace_math_macros`. -/
def replaceMathMacros (actor : Actor) (macros : List MathMacro) (expectedRevision : ℤ) :
    Except MathMacroUseCaseError (MathMacroSettings × Database) := do
  validateMathMacros macros
  if expectedRevision < 0 then throw .invalid
  (db.storeMathMacros codec actor.principalId macros expectedRevision).mapError
    StorageError.toMathMacroUseCaseError

/-- The revision of an owner's settings, 0 when there are none. -/
def mathMacroRevision (owner : PrincipalId) : ℕ :=
  (db.mathMacroSettings.find owner).elim 0 MathMacroRow.revision

variable {codec} {db} {db' : Database} {actor : Actor} {macros : List MathMacro}
  {expectedRevision : ℤ} {settings : MathMacroSettings}

/-- A stored list is read as it was written. -/
theorem decodeSettings_encode (hvalid : validateStoredMathMacros macros = .ok ())
    (hrereads : codec.Rereads macros) {row : MathMacroRow}
    (hjson : row.macrosJson = codec.encode macros) (hrevision : 0 < row.revision) :
    decodeSettings codec row = .ok ⟨macros, row.revision⟩ := by
  unfold decodeSettings
  rw [if_neg (by omega), hjson, show codec.decode (codec.encode macros) = some macros from hrereads]
  simp only [hvalid]

/-- A stored list expected the revision there was, and got the next. -/
theorem storeMathMacros_eq_ok {owner : PrincipalId}
    (h : db.storeMathMacros codec owner macros expectedRevision = .ok (settings, db')) :
    ((db.principals.find owner).isSome ∨ (db.mathMacroSettings.find owner).isSome) ∧
      expectedRevision = db.mathMacroRevision owner ∧
      settings = ⟨macros, db.mathMacroRevision owner + 1⟩ ∧
      ∃ rows : Table MathMacroRow, db' = { db with mathMacroSettings := rows } ∧
        ∀ other, rows.find other = if owner = other then
          some ⟨owner, codec.encode macros, db.mathMacroRevision owner + 1⟩
        else db.mathMacroSettings.find other := by
  unfold storeMathMacros at h
  by_cases hzero : expectedRevision = 0
  · rw [if_pos hzero] at h
    split_ifs at h with hprincipal
    split at h
    · cases h
    next rows hinsert =>
    cases h
    have hfree : db.mathMacroSettings.find owner = none := (Table.insert?_eq_some.mp hinsert).1
    have hrevision : db.mathMacroRevision owner = 0 := by
      unfold mathMacroRevision
      rw [hfree]
      rfl
    rw [hrevision]
    refine ⟨Or.inl ?_, by omega, rfl, rows, rfl, fun other => Table.find_insert? hinsert other⟩
    rwa [Bool.not_eq_true, Option.isNone_eq_false_iff] at hprincipal
  · rw [if_neg hzero] at h
    split at h
    · cases h
    next row hrow =>
    cases h
    obtain ⟨hfind, hexpected⟩ := Option.filter_eq_some_iff.mp hrow
    rw [decide_eq_true_eq] at hexpected
    have hrevision : db.mathMacroRevision owner = row.revision := by
      unfold mathMacroRevision
      rw [hfind]
      rfl
    rw [hrevision]
    refine ⟨Or.inr ?_, hexpected.symm, rfl, _, rfl, fun other => Table.find_upsert other⟩
    rw [hfind]
    rfl

/-- A committed request was for a valid list, and saw the revision there was. -/
theorem replaceMathMacros_eq_ok
    (h : db.replaceMathMacros codec actor macros expectedRevision = .ok (settings, db')) :
    AcceptedMacros macros ∧
      db.storeMathMacros codec actor.principalId macros expectedRevision = .ok (settings, db') := by
  obtain ⟨u, hvalid, h⟩ := Except.bind_eq_ok.mp h
  split_ifs at h
  · cases h
  · exact ⟨validateMathMacros_eq_ok.mp hvalid, Except.mapError_eq_ok.mp h⟩

end Database

/-! ## Runs -/

/-- A request to replace the macros, or a transaction that writes other tables. -/
inductive MathMacroOperation
  | replace (actor : Actor) (macros : List MathMacro) (expectedRevision : ℤ)
  | elsewhere (tables : Database)

namespace MathMacroOperation

/-- The database after an operation, rolled back when it failed. -/
def apply (codec : MathMacroCodec) (db : Database) : MathMacroOperation → Database
  | replace actor macros expectedRevision =>
    db.commit ((db.replaceMathMacros codec actor macros expectedRevision).map Prod.snd)
  | elsewhere tables => { tables with mathMacroSettings := db.mathMacroSettings }

/-- What a request stores is read back. -/
def Legal (codec : MathMacroCodec) : MathMacroOperation → Prop
  | replace _ macros _ => codec.Rereads macros
  | elsewhere _ => True

def Step (codec : MathMacroCodec) (db : Database) (op : MathMacroOperation) (db' : Database) :
    Prop :=
  op.Legal codec ∧ db' = op.apply codec db

/-- The list an operation stores for an owner. -/
def stores (codec : MathMacroCodec) (owner : PrincipalId) (db : Database) :
    MathMacroOperation → Option (List MathMacro)
  | replace actor macros expectedRevision =>
    if actor.principalId = owner ∧
        (db.replaceMathMacros codec actor macros expectedRevision).toOption.isSome then
      some macros
    else none
  | elsewhere _ => none

/-- The revision a request expects. -/
def expectedRevision : MathMacroOperation → ℤ
  | replace _ _ expectedRevision => expectedRevision
  | elsewhere _ => 0

end MathMacroOperation

namespace Database

/-- The lists the moves stored for an owner, in order. -/
def storedMathMacros (codec : MathMacroCodec) (owner : PrincipalId)
    (moves : List (Move Database MathMacroOperation)) : List (List MathMacro) :=
  moves.filterMap fun m => m.label.stores codec owner m.pre

/-- The settings an owner reads are the last of a log. -/
def ReadsLast (codec : MathMacroCodec) (owner : PrincipalId) (log : List (List MathMacro))
    (db : Database) : Prop :=
  db.mathMacroRevision owner = log.length ∧
    db.readMathMacros codec owner = .ok ⟨log.getLast?.getD [], log.length⟩

variable {codec : MathMacroCodec} {db db' : Database} {owner : PrincipalId}
  {log : List (List MathMacro)} {op : MathMacroOperation}
  {moves : List (Move Database MathMacroOperation)}

/-- The settings of an owner depend on the owner's row only. -/
theorem ReadsLast.congr (h : ReadsLast codec owner log db)
    (hfind : db'.mathMacroSettings.find owner = db.mathMacroSettings.find owner) :
    ReadsLast codec owner log db' := by
  unfold ReadsLast mathMacroRevision readMathMacros at h ⊢
  rwa [hfind]

/-- An operation appends what it stores, and had seen all there was. -/
theorem ReadsLast.step (h : ReadsLast codec owner log db) (hstep : op.Step codec db db') :
    ReadsLast codec owner (log ++ (op.stores codec owner db).toList) db' ∧
      ((op.stores codec owner db).isSome → op.expectedRevision = log.length) := by
  obtain ⟨hlegal, rfl⟩ := hstep
  cases op with
  | elsewhere tables =>
    rw [MathMacroOperation.stores, Option.toList_none, List.append_nil]
    exact ⟨h.congr rfl, fun hsome => by cases hsome⟩
  | replace actor macros expectedRevision =>
    simp only [MathMacroOperation.stores, MathMacroOperation.apply]
    cases hresult : db.replaceMathMacros codec actor macros expectedRevision with
    | error error =>
      rw [if_neg (by simp [Except.toOption]), Option.toList_none, List.append_nil]
      exact ⟨h.congr rfl, fun hsome => by cases hsome⟩
    | ok result =>
      obtain ⟨settings, db'⟩ := result
      obtain ⟨haccepted, hstored⟩ := replaceMathMacros_eq_ok hresult
      obtain ⟨-, hexpected, -, rows, rfl, hrows⟩ := storeMathMacros_eq_ok hstored
      by_cases howner : actor.principalId = owner
      · rw [if_pos ⟨howner, rfl⟩]
        have hfind := hrows owner
        rw [if_pos howner, howner] at hfind
        rw [howner, h.1] at hexpected
        refine ⟨⟨?_, ?_⟩, fun _ => hexpected⟩
        · show (rows.find owner).elim 0 MathMacroRow.revision = _
          rw [hfind, h.1]
          simp
        · unfold readMathMacros
          show (match rows.find owner with
            | none => _
            | some row => decodeSettings codec row) = _
          rw [hfind]
          simp only [Option.toList_some, List.getLast?_concat, Option.getD_some,
            List.length_append, List.length_singleton]
          rw [decodeSettings_encode haccepted.validateStored hlegal rfl (Nat.succ_pos _), h.1]
      · rw [if_neg fun hboth => howner hboth.1, Option.toList_none, List.append_nil]
        refine ⟨h.congr ?_, fun hsome => by cases hsome⟩
        show rows.find owner = _
        rw [hrows, if_neg howner]

theorem readsLast_empty : ReadsLast codec owner [] empty := ⟨rfl, rfl⟩

/-- In any interleaving of requests an owner reads the last list that was stored for it, under the
number of lists stored, and every stored list had seen all that were stored before. -/
theorem math_macro_settings_log (hrun : Run (MathMacroOperation.Step codec) empty moves db)
    (owner : PrincipalId) :
    db.readMathMacros codec owner = .ok ⟨(storedMathMacros codec owner moves).getLast?.getD [],
        (storedMathMacros codec owner moves).length⟩ ∧
      ∀ before m after, moves = before ++ m :: after → (m.label.stores codec owner m.pre).isSome →
        m.label.expectedRevision = ((storedMathMacros codec owner before).length : ℤ) := by
  have hreads : ∀ {moves db}, Run (MathMacroOperation.Step codec) empty moves db →
      ReadsLast codec owner (storedMathMacros codec owner moves) db := by
    intro moves db hrun
    induction hrun with
    | nil => exact readsLast_empty
    | @snoc t u moves op hrest hlast ih =>
      have happend := (ih.step hlast).1
      unfold storedMathMacros at happend ⊢
      rwa [List.filterMap_append, List.filterMap_cons, List.filterMap_nil]
  refine ⟨(hreads hrun).2, ?_⟩
  rintro before m after rfl hstores
  obtain ⟨hbefore, hstep, -⟩ := hrun.split
  exact ((hreads hbefore).step hstep).2 hstores

end Database

/-! ## Forms that were loaded together -/

/-- The object of a stored macro. -/
def storedMathMacro (item : MathMacro) : Json :=
  .object [("name", .string item.name), ("replacement", .string item.replacement),
    ("argument_count", .number (toString item.argumentCount))]

/-- A parser that knows the lists of a run. -/
def sampleMacroCodec (lists : List (List MathMacro)) : MathMacroCodec where
  encode macros := (Json.array (macros.map storedMathMacro)).render
  decode text := lists.find? fun macros => (Json.array (macros.map storedMathMacro)).render = text

/-- `\RR` for the real numbers. -/
def realNumbers : List MathMacro := [⟨"RR", "\\mathbb\x7bR\x7d", 0⟩]

/-- `\norm` with its argument. -/
def norm : List MathMacro := [⟨"norm", "\\lVert #1 \\rVert", 1⟩]

open Database in
/-- All forms show no macros. Alice's second one is refused, loads the settings and is sent again.
Bob's list is stored between hers, and his second form is refused. -/
def twoForms : List MathMacroOperation :=
  [.elsewhere twoPrincipals, .replace alice realNumbers 0, .replace bob norm 0,
    .replace alice norm 0, .replace alice norm 1, .replace bob realNumbers 0]

/-- The codec of that run. -/
def twoFormsCodec : MathMacroCodec := sampleMacroCodec [realNumbers, norm]

theorem run_twoForms : Run (MathMacroOperation.Step twoFormsCodec) Database.empty
    (Run.trace (MathMacroOperation.apply twoFormsCodec) Database.empty twoForms)
    (twoForms.foldl (MathMacroOperation.apply twoFormsCodec) Database.empty) := by
  have hnumbers : twoFormsCodec.Rereads realNumbers := by decide +kernel
  have hnorm : twoFormsCodec.Rereads norm := by decide +kernel
  have hlegal : ∀ op ∈ twoForms, op.Legal twoFormsCodec := by
    simp only [twoForms, List.forall_mem_cons, List.not_mem_nil, false_implies, implies_true,
      and_true]
    exact ⟨trivial, hnumbers, hnorm, hnorm, hnorm, hnumbers⟩
  exact Run.run_trace_of_legal (MathMacroOperation.apply twoFormsCodec) _ _ fun m hm =>
    hlegal _ (Run.label_mem_of_mem_trace hm)

/-- Either owner reads the last list of the own log, which has no refused list. -/
theorem math_macro_settings_log_twoForms :
    (twoForms.foldl (MathMacroOperation.apply twoFormsCodec) Database.empty).readMathMacros
      twoFormsCodec ⟨1⟩ = .ok ⟨norm, 2⟩ ∧
    (twoForms.foldl (MathMacroOperation.apply twoFormsCodec) Database.empty).readMathMacros
      twoFormsCodec ⟨2⟩ = .ok ⟨norm, 1⟩ := by
  have hlogs : Database.storedMathMacros twoFormsCodec ⟨1⟩
      (Run.trace (MathMacroOperation.apply twoFormsCodec) Database.empty twoForms) =
        [realNumbers, norm] ∧
      Database.storedMathMacros twoFormsCodec ⟨2⟩
        (Run.trace (MathMacroOperation.apply twoFormsCodec) Database.empty twoForms) =
          [norm] := by decide +kernel
  obtain ⟨halice, -⟩ := Database.math_macro_settings_log run_twoForms ⟨1⟩
  obtain ⟨hbob, -⟩ := Database.math_macro_settings_log run_twoForms ⟨2⟩
  rw [hlogs.1] at halice
  rw [hlogs.2] at hbob
  exact ⟨halice, hbob⟩

end Marginalis
