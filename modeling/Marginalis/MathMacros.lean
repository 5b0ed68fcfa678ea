import Mathlib.Data.List.Basic
import Marginalis.AsciiCodes
import Marginalis.Characters
import Marginalis.Framing
import Marginalis.Result

/-!
# Mathematical macros on the server

A user stores macros that the browser puts before every formula of the user's notes. The server
accepts a list of macros when each of them can be written as a definition of its own : its name is
a control word, its replacement has balanced braces, no comment and no escape at its end, and
every parameter in it is declared.
-/

namespace Marginalis

/-- A macro as the server stores it. -/
structure MathMacro where
  name : String
  replacement : String
  argumentCount : ℕ
  deriving DecidableEq

inductive MathMacroUseCaseError
  | invalid
  | conflict
  | unavailable
  | corruptData
  deriving DecidableEq

def maxMathMacros : ℕ := 64

def maxMathMacroNameCharacters : ℕ := 32

def maxMathMacroReplacementCharacters : ℕ := 512

def maxMathMacroArguments : ℕ := 9

def maxMathMacroTotalBytes : ℕ := 16 * 1024

namespace MathMacro

/-! ## One macro -/

/-- The loop over the bytes : each `#` must be followed by the digit of a declared parameter. -/
def validArgumentReferences (argumentCount : ℕ) : List UInt8 → Bool
  | [] => true
  | byte :: rest =>
    if byte ≠ 35 then validArgumentReferences argumentCount rest
    else
      match rest with
      | [] => false
      | digit :: rest =>
        if digit.toNat < 48 then false
        else if digit.toNat - 48 = 0 ∨ argumentCount < digit.toNat - 48 then false
        else validArgumentReferences argumentCount rest

/-- The open braces and the backslashes read last. -/
structure BraceScan where
  braceDepth : ℕ
  consecutiveBackslashes : ℕ
  deriving DecidableEq

def BraceScan.step (scan : BraceScan) (character : Char) : Option BraceScan :=
  if character = '\\' then
    some { scan with consecutiveBackslashes := scan.consecutiveBackslashes + 1 }
  else
    let escaped := scan.consecutiveBackslashes % 2 = 1
    if character = '%' ∧ ¬ escaped then none
    else if character = '{' ∧ ¬ escaped then some ⟨scan.braceDepth + 1, 0⟩
    else if character = '}' ∧ ¬ escaped then
      if scan.braceDepth = 0 then none else some ⟨scan.braceDepth - 1, 0⟩
    else some ⟨scan.braceDepth, 0⟩

def safeTexDefinition (name replacement : String) : Bool :=
  if name = "def" then false
  else
    match replacement.toList.foldlM BraceScan.step ⟨0, 0⟩ with
    | none => false
    | some scan => scan.braceDepth = 0 && scan.consecutiveBackslashes % 2 = 0

/-- What the loop over the macros requires of one, apart from a new name. -/
def storable (item : MathMacro) : Bool :=
  item.name ≠ "" && item.name.toList.length ≤ maxMathMacroNameCharacters &&
    (Framing.textBytes item.name).all (fun byte =>
      decide (65 ≤ byte.toNat ∧ byte.toNat ≤ 90 ∨ 97 ≤ byte.toNat ∧ byte.toNat ≤ 122)) &&
    item.replacement ≠ "" &&
    item.replacement.toList.length ≤ maxMathMacroReplacementCharacters &&
    !item.replacement.toList.any isControl &&
    item.argumentCount ≤ maxMathMacroArguments &&
    validArgumentReferences item.argumentCount (Framing.textBytes item.replacement)

end MathMacro

/-! ## A list of macros -/

open MathMacro

/-- The loop with the names it has met. -/
def validateEach (names : List String) : List MathMacro → Except MathMacroUseCaseError Unit
  | [] => .ok ()
  | item :: rest =>
    if !storable item || item.name ∈ names then .error .invalid
    else validateEach (item.name :: names) rest

def validateStoredMathMacros (macros : List MathMacro) : Except MathMacroUseCaseError Unit :=
  if maxMathMacros < macros.length ∨
      maxMathMacroTotalBytes < (macros.map fun item =>
        (Framing.textBytes item.name).length + (Framing.textBytes item.replacement).length).sum then
    .error .invalid
  else
    validateEach [] macros

def validateMathMacros (macros : List MathMacro) : Except MathMacroUseCaseError Unit := do
  validateStoredMathMacros macros
  if macros.any fun item => !safeTexDefinition item.name item.replacement then
    .error .invalid
  else
    .ok ()

/-- Names are new and differ from each other when the first is new and the others are besides. -/
theorem nodup_names_cons {α β : Type} {f : α → β} {a : α} {l : List α} {names : List β} :
    (((a :: l).map f).Nodup ∧ ∀ x ∈ a :: l, f x ∉ names) ↔
      f a ∉ names ∧ (l.map f).Nodup ∧ ∀ x ∈ l, f x ∉ f a :: names := by
  rw [List.map_cons, List.nodup_cons, List.forall_mem_cons]
  simp only [List.mem_cons, not_or]
  refine ⟨fun h => ?_, fun h => ?_⟩
  · obtain ⟨⟨hfirst, hnodup⟩, hnew, hnames⟩ := h
    refine ⟨hnew, hnodup, fun x hx => ⟨fun heq => ?_, hnames x hx⟩⟩
    exact hfirst (heq ▸ List.mem_map_of_mem hx)
  · obtain ⟨hnew, hnodup, hnames⟩ := h
    refine ⟨⟨fun hmem => ?_, hnodup⟩, hnew, fun x hx => (hnames x hx).2⟩
    obtain ⟨x, hx, heq⟩ := List.mem_map.mp hmem
    exact (hnames x hx).1 heq

theorem validateEach_eq_ok {names : List String} {macros : List MathMacro} :
    validateEach names macros = .ok () ↔ (∀ item ∈ macros, storable item = true) ∧
      (macros.map MathMacro.name).Nodup ∧ ∀ item ∈ macros, item.name ∉ names := by
  induction macros generalizing names with
  | nil => simp [validateEach]
  | cons item rest ih =>
    rw [validateEach, nodup_names_cons, List.forall_mem_cons]
    by_cases hitem : storable item = true ∧ item.name ∉ names
    · rw [if_neg (by simpa using hitem), ih]
      simp [hitem]
    · rw [if_pos (by simpa [imp_iff_not_or] using hitem)]
      refine ⟨fun h => (by cases h), fun h => absurd ⟨h.1.1, h.2.1⟩ hitem⟩

/-- What an accepted list is. -/
structure AcceptedMacros (macros : List MathMacro) : Prop where
  length_le : macros.length ≤ maxMathMacros
  bytes_le : (macros.map fun item => (Framing.textBytes item.name).length +
    (Framing.textBytes item.replacement).length).sum ≤ maxMathMacroTotalBytes
  storable : ∀ item ∈ macros, storable item = true
  nodup : (macros.map MathMacro.name).Nodup
  safe : ∀ item ∈ macros, safeTexDefinition item.name item.replacement = true

theorem validateMathMacros_eq_ok {macros : List MathMacro} :
    validateMathMacros macros = .ok () ↔ AcceptedMacros macros := by
  unfold validateMathMacros validateStoredMathMacros
  rw [Except.bind_eq_ok]
  refine ⟨fun h => ?_, fun h => ⟨(), ?_, ?_⟩⟩
  · obtain ⟨u, hstored, hsafe⟩ := h
    by_cases hsize : maxMathMacros < macros.length ∨
        maxMathMacroTotalBytes < (macros.map fun item => (Framing.textBytes item.name).length +
          (Framing.textBytes item.replacement).length).sum
    · rw [if_pos hsize] at hstored
      cases hstored
    · rw [if_neg hsize] at hstored
      obtain ⟨hstorable, hnodup, -⟩ := validateEach_eq_ok.mp hstored
      refine ⟨by omega, by omega, hstorable, hnodup, fun item hitem => ?_⟩
      by_contra hunsafe
      rw [if_pos (List.any_eq_true.mpr ⟨item, hitem, by simpa using hunsafe⟩)] at hsafe
      cases hsafe
  · rw [if_neg (by have := h.length_le; have := h.bytes_le; omega), validateEach_eq_ok]
    exact ⟨h.storable, h.nodup, fun item _ => by simp⟩
  · rw [if_neg]
    simpa using h.safe

/-- A list that was accepted is accepted again when it is read. -/
theorem AcceptedMacros.validateStored {macros : List MathMacro} (h : AcceptedMacros macros) :
    validateStoredMathMacros macros = .ok () := by
  obtain ⟨_, hstored, -⟩ := Except.bind_eq_ok.mp (validateMathMacros_eq_ok.mpr h)
  exact hstored

end Marginalis
