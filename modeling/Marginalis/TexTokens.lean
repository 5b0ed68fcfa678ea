import Mathlib.Data.List.Basic

/-!
# The tokens of TeX

TeX reads a text character by character, by the categories of its characters : an escape begins a
control sequence, a comment hides the rest of its line, and spaces are read once. The reader is a
machine, so what it makes of a text with more behind it is what it makes of both in turn
(`tokens_append`). A definition is read off the tokens by its braces (`readDefinition_eq`).
-/

set_option linter.unusedSectionVars false

namespace TexTokens

inductive Category
  | escape
  | beginGroup
  | endGroup
  | parameter
  | comment
  | letter
  | space
  | endOfLine
  | other
  deriving DecidableEq

inductive Token (α : Type)
  | controlSequence (name : List α)
  | character (a : α)
  | space
  | paragraph
  deriving DecidableEq

/-- Where a line is read : at its beginning, in it, or behind a space or a control word. -/
inductive LineState
  | newLine
  | middle
  | skipping
  deriving DecidableEq

/-- Whether the reader is outside of, or in, an escape, a control word or a comment. -/
inductive ReadState (α : Type)
  | line (place : LineState)
  | escape
  | word (name : List α)
  | comment

variable {α : Type} (category : α → Category)

/-! ## Reading -/

/-- A character outside of control sequences and comments. -/
def stepLine (place : LineState) (a : α) : List (Token α) × ReadState α :=
  match category a with
  | .escape => ([], .escape)
  | .comment => ([], .comment)
  | .space => if place = .middle then ([.space], .line .skipping) else ([], .line place)
  | .endOfLine =>
    (if place = .middle then [.space] else if place = .newLine then [.paragraph] else [],
      .line .newLine)
  | _ => ([.character a], .line .middle)

def step : ReadState α → α → List (Token α) × ReadState α
  | .line place, a => stepLine category place a
  | .escape, a =>
    match category a with
    | .letter => ([], .word [a])
    | .space => ([.controlSequence [a]], .line .skipping)
    | .endOfLine => ([.controlSequence [a]], .line .newLine)
    | _ => ([.controlSequence [a]], .line .middle)
  | .word name, a =>
    if category a = .letter then ([], .word (name ++ [a]))
    else
      (.controlSequence name :: (stepLine category .skipping a).1,
        (stepLine category .skipping a).2)
  | .comment, a => if category a = .endOfLine then ([], .line .newLine) else ([], .comment)

/-- The tokens read so far, and the state they leave. -/
def read (state : ReadState α) : List α → List (Token α) × ReadState α
  | [] => ([], state)
  | a :: rest =>
    ((step category state a).1 ++ (read (step category state a).2 rest).1,
      (read (step category state a).2 rest).2)

/-- What the end of the text ends. -/
def flush : ReadState α → List (Token α)
  | .word name => [.controlSequence name]
  | .escape => [.controlSequence []]
  | _ => []

def tokens (state : ReadState α) (text : List α) : List (Token α) :=
  (read category state text).1 ++ flush (read category state text).2

variable {category} {state : ReadState α} {a : α} {text rest : List α}

@[simp] theorem read_nil : read category state [] = ([], state) := rfl

theorem read_cons : read category state (a :: rest) =
    ((step category state a).1 ++ (read category (step category state a).2 rest).1,
      (read category (step category state a).2 rest).2) := rfl

@[simp] theorem tokens_nil : tokens category state [] = flush state := rfl

theorem tokens_cons : tokens category state (a :: rest) =
    (step category state a).1 ++ tokens category (step category state a).2 rest := by
  simp [tokens, read]

theorem tokens_append : tokens category state (text ++ rest) =
    (read category state text).1 ++ tokens category (read category state text).2 rest := by
  induction text generalizing state with
  | nil => rfl
  | cons a text ih => rw [List.cons_append, tokens_cons, ih, read, List.append_assoc]

/-- Neither in an escape nor in a comment. -/
def ReadState.Settled : ReadState α → Prop
  | .line _ => True
  | .word _ => True
  | _ => False

theorem settled_line (place : LineState) : (ReadState.line place : ReadState α).Settled := trivial

theorem settled_word (name : List α) : (ReadState.word name).Settled := trivial

/-- Characters that end a control word and stand for themselves. -/
def Category.IsPlain : Category → Prop
  | .beginGroup => True
  | .endGroup => True
  | .parameter => True
  | .other => True
  | _ => False

theorem step_of_isPlain (hstate : state.Settled) (ha : (category a).IsPlain) :
    step category state a = (flush state ++ [.character a], .line .middle) := by
  have hline : ∀ place, stepLine category place a = ([.character a], .line .middle) := by
    intro place
    unfold stepLine
    cases hcategory : category a <;> simp_all [Category.IsPlain]
  have hletter : category a ≠ .letter := by
    intro hcategory
    rw [hcategory] at ha
    exact ha
  rcases state with place | - | name | -
  · exact hline place
  · exact absurd hstate id
  · rw [step, if_neg hletter, hline]
    rfl
  · exact absurd hstate id

theorem step_comment_of_isPlain (ha : (category a).IsPlain) :
    step category .comment a = ([], .comment) := by
  rw [step, if_neg]
  intro hcategory
  rw [hcategory] at ha
  exact ha

/-- A text that leaves the reader outside of escapes and comments is read on its own when such a
character follows. -/
theorem tokens_append_of_isPlain (hstate : (read category state text).2.Settled)
    (ha : (category a).IsPlain) :
    tokens category state (text ++ a :: rest) =
      tokens category state text ++ .character a :: tokens category (.line .middle) rest := by
  have htokens : tokens category state text =
      (read category state text).1 ++ flush (read category state text).2 := rfl
  rw [tokens_append, tokens_cons, step_of_isPlain hstate ha, htokens]
  simp

theorem read_word {name letters : List α} (h : ∀ a ∈ letters, category a = .letter) :
    read category (.word name) letters = ([], .word (name ++ letters)) := by
  induction letters generalizing name with
  | nil => simp [read]
  | cons a letters ih =>
    rw [read, step, if_pos (h a (by simp)), ih fun b hb => h b (List.mem_cons_of_mem a hb)]
    simp

/-- Behind an escape, letters are the name of a control word. -/
theorem read_escape {letters : List α} (hne : letters ≠ [])
    (h : ∀ a ∈ letters, category a = .letter) :
    read category .escape letters = ([], .word letters) := by
  rcases letters with - | ⟨a, letters⟩
  · exact absurd rfl hne
  · have ha := h a (by simp)
    rw [read, step, ha]
    simp only
    rw [read_word fun b hb => h b (List.mem_cons_of_mem a hb)]
    simp

theorem read_line_of_isPlain {place : LineState} (h : ∀ a ∈ text, (category a).IsPlain)
    (hne : text ≠ []) :
    read category (.line place) text = (text.map .character, .line .middle) := by
  induction text generalizing place with
  | nil => exact absurd rfl hne
  | cons a text ih =>
    rw [read, step_of_isPlain (settled_line place) (h a (by simp))]
    rcases text with - | ⟨b, text⟩
    · rfl
    · rw [ih (fun c hc => h c (List.mem_cons_of_mem a hc)) (List.cons_ne_nil _ _)]
      rfl

/-- Such characters end a control word. -/
theorem read_word_of_isPlain {name : List α} (h : ∀ a ∈ text, (category a).IsPlain)
    (hne : text ≠ []) :
    read category (.word name) text =
      (.controlSequence name :: text.map .character, .line .middle) := by
  rcases text with - | ⟨a, text⟩
  · exact absurd rfl hne
  · rw [read, step_of_isPlain (settled_word name) (h a (by simp))]
    rcases text with - | ⟨b, text⟩
    · rfl
    · rw [read_line_of_isPlain (fun c hc => h c (List.mem_cons_of_mem a hc))
        (List.cons_ne_nil _ _)]
      rfl

/-- A character read is the only one that can stand for itself. -/
theorem eq_of_character_mem_step {b : α} (h : .character b ∈ (step category state a).1) :
    b = a := by
  have hline : ∀ place, .character b ∈ (stepLine category place a).1 → b = a := by
    intro place hb
    unfold stepLine at hb
    cases hcategory : category a <;> rw [hcategory] at hb <;> dsimp only at hb
    all_goals first
      | (rw [List.mem_singleton, Token.character.injEq] at hb; exact hb)
      | (split_ifs at hb <;> simp at hb)
      | simp at hb
  rcases state with place | - | name | -
  · exact hline place h
  · rw [step] at h
    cases hcategory : category a <;> simp [hcategory] at h
  · rw [step] at h
    split_ifs at h with hletter
    · simp at h
    · exact hline _ (by simpa using h)
  · rw [step] at h
    split_ifs at h <;> simp at h

/-! ## Braces and parameters -/

/-- The depth of the groups behind some tokens, unless they close one they have not opened. -/
def depthAfter (category : α → Category) (depth : ℕ) : List (Token α) → Option ℕ
  | [] => some depth
  | .character a :: rest =>
    match category a with
    | .beginGroup => depthAfter category (depth + 1) rest
    | .endGroup => if depth = 0 then none else depthAfter category (depth - 1) rest
    | _ => depthAfter category depth rest
  | _ :: rest => depthAfter category depth rest

/-- A parameter character stands only before a declared digit. -/
def parametersDeclared (category : α → Category) (declared : α → Bool) : List (Token α) → Bool
  | [] => true
  | .character a :: rest =>
    if category a = .parameter then
      match rest with
      | .character digit :: rest => declared digit && parametersDeclared category declared rest
      | _ => false
    else parametersDeclared category declared rest
  | _ :: rest => parametersDeclared category declared rest

/-- A token that is no brace. -/
def Token.IsNeutral (category : α → Category) : Token α → Prop
  | .character a => category a ≠ .beginGroup ∧ category a ≠ .endGroup
  | _ => True

theorem depthAfter_append {depth : ℕ} {ts rest : List (Token α)}
    (h : ∀ token ∈ ts, token.IsNeutral category) :
    depthAfter category depth (ts ++ rest) = depthAfter category depth rest := by
  induction ts with
  | nil => rfl
  | cons token ts ih =>
    have htoken := h token (by simp)
    have ih := ih fun other ho => h other (List.mem_cons_of_mem token ho)
    rcases token with name | a | - | -
    · simpa [depthAfter] using ih
    · rw [List.cons_append, depthAfter]
      cases hcategory : category a
      all_goals first
        | exact ih
        | exact absurd hcategory htoken.1
        | exact absurd hcategory htoken.2
    · simpa [depthAfter] using ih
    · simpa [depthAfter] using ih

theorem isNeutral_of_mem_step {token : Token α}
    (ha : category a ≠ .beginGroup ∧ category a ≠ .endGroup)
    (h : token ∈ (step category state a).1) : token.IsNeutral category := by
  rcases token with name | b | - | -
  · trivial
  · rw [eq_of_character_mem_step h]
    exact ha
  · trivial
  · trivial

theorem isNeutral_of_mem_step_escape {token : Token α}
    (h : token ∈ (step category .escape a).1) : token.IsNeutral category := by
  rw [step] at h
  cases hcategory : category a <;> simp only [hcategory] at h
  all_goals first
    | (rw [List.mem_singleton] at h; rw [h]; trivial)
    | simp at h

theorem settled_step_escape : (step category .escape a).2.Settled := by
  rw [step]
  cases category a <;> trivial

theorem settled_step (hstate : state.Settled) (hescape : category a ≠ .escape)
    (hcomment : category a ≠ .comment) : (step category state a).2.Settled := by
  have hline : ∀ place, (stepLine category place a).2.Settled := by
    intro place
    unfold stepLine
    cases hcategory : category a
    all_goals first
      | exact absurd hcategory hescape
      | exact absurd hcategory hcomment
      | trivial
      | (split_ifs <;> trivial)
  rcases state with place | - | name | -
  · exact hline place
  · exact settled_step_escape
  · rw [step]
    split_ifs
    · trivial
    · exact hline _
  · exact absurd hstate id

theorem isNeutral_of_mem_flush {token : Token α} (h : token ∈ flush state) :
    token.IsNeutral category := by
  rcases state with place | - | name | -
  · cases h
  · rw [List.mem_singleton.mp h]
    trivial
  · rw [List.mem_singleton.mp h]
    trivial
  · cases h

theorem character_not_mem_flush : .character a ∉ flush state := by
  rcases state with place | - | name | - <;> simp [flush]

theorem depthAfter_open {depth : ℕ} {ts : List (Token α)} (h : category a = .beginGroup) :
    depthAfter category depth (.character a :: ts) = depthAfter category (depth + 1) ts := by
  simp [depthAfter, h]

theorem depthAfter_close {depth : ℕ} {ts : List (Token α)} (h : category a = .endGroup)
    (hdepth : depth ≠ 0) :
    depthAfter category depth (.character a :: ts) = depthAfter category (depth - 1) ts := by
  simp [depthAfter, h, hdepth]

theorem parametersDeclared_append {declared : α → Bool} {ts rest : List (Token α)}
    (h : ∀ b, .character b ∈ ts → category b ≠ .parameter) :
    parametersDeclared category declared (ts ++ rest) =
      parametersDeclared category declared rest := by
  induction ts with
  | nil => rfl
  | cons token ts ih =>
    have ih := ih fun b hb => h b (List.mem_cons_of_mem token hb)
    rcases token with name | a | - | -
    · simpa [parametersDeclared] using ih
    · rw [List.cons_append, parametersDeclared.eq_def]
      simp only [h a (by simp), if_false]
      exact ih
    · simpa [parametersDeclared] using ih
    · simpa [parametersDeclared] using ih

theorem parametersDeclared_parameter {declared : α → Bool} {digit : α} {rest : List (Token α)}
    (h : category a = .parameter) :
    parametersDeclared category declared (.character a :: .character digit :: rest) =
      (declared digit && parametersDeclared category declared rest) := by
  simp [parametersDeclared, h]

/-! ## Definitions -/

structure Definition (α : Type) where
  name : List α
  parameterText : List (Token α)
  body : List (Token α)
  deriving DecidableEq

/-- The tokens before the brace that closes the open group. -/
def readBody (category : α → Category) (depth : ℕ) :
    List (Token α) → Option (List (Token α) × List (Token α))
  | [] => none
  | .character a :: rest =>
    match category a with
    | .beginGroup => (readBody category (depth + 1) rest).map (Prod.map (.character a :: ·) id)
    | .endGroup =>
      if depth = 0 then some ([], rest)
      else (readBody category (depth - 1) rest).map (Prod.map (.character a :: ·) id)
    | _ => (readBody category depth rest).map (Prod.map (.character a :: ·) id)
  | token :: rest => (readBody category depth rest).map (Prod.map (token :: ·) id)

def opensGroup (category : α → Category) : Token α → Bool
  | .character a => category a = .beginGroup
  | _ => false

variable [DecidableEq α]

/-- The defining control sequence, the defined one, the parameter text up to the first brace, and
the body between this brace and the one that closes it. -/
def readDefinition (category : α → Category) (command : List α) :
    List (Token α) → Option (Definition α × List (Token α))
  | .controlSequence first :: .controlSequence name :: rest =>
    if first = command then
      let parameterText := rest.takeWhile fun token => !opensGroup category token
      (readBody category 0 (rest.drop (parameterText.length + 1))).map fun found =>
        ({ name := name, parameterText := parameterText, body := found.1 }, found.2)
    else none
  | _ => none

/-- As many definitions in a row. -/
def readDefinitions (category : α → Category) (command : List α) :
    ℕ → List (Token α) → Option (List (Definition α) × List (Token α))
  | 0, rest => some ([], rest)
  | n + 1, rest =>
    (readDefinition category command rest).bind fun found =>
      (readDefinitions category command n found.2).map (Prod.map (found.1 :: ·) id)

/-! ## What is read back -/

variable {command name : List α} {body parameterText after : List (Token α)} {depth : ℕ}

theorem readBody_append {close : α} (hclose : category close = .endGroup)
    (hbody : depthAfter category depth body = some 0) :
    readBody category depth (body ++ .character close :: after) = some (body, after) := by
  induction body generalizing depth with
  | nil =>
    rw [depthAfter, Option.some.injEq] at hbody
    simp [readBody, hclose, hbody]
  | cons token body ih =>
    rcases token with name | a | - | -
    · rw [depthAfter] at hbody
      · simp [readBody, ih hbody]
      · simp
    · rw [List.cons_append, readBody]
      rw [depthAfter] at hbody
      cases hcategory : category a with
      | beginGroup =>
        rw [hcategory] at hbody
        simp [ih hbody]
      | endGroup =>
        rw [hcategory] at hbody
        by_cases hdepth : depth = 0
        · simp [hdepth] at hbody
        · simp only [hdepth, if_false] at hbody ⊢
          simp [ih hbody]
      | _ =>
        rw [hcategory] at hbody
        simp [ih hbody]
    · rw [depthAfter] at hbody
      · simp [readBody, ih hbody]
      · simp
    · rw [depthAfter] at hbody
      · simp [readBody, ih hbody]
      · simp

/-- A definition is read off the tokens it is written with, when its body closes every group it
opens. -/
theorem readDefinition_eq {opening closing : α} (hopening : category opening = .beginGroup)
    (hclosing : category closing = .endGroup)
    (hparameter : ∀ token ∈ parameterText, opensGroup category token = false)
    (hbody : depthAfter category 0 body = some 0) :
    readDefinition category command (.controlSequence command :: .controlSequence name ::
      (parameterText ++ .character opening :: (body ++ .character closing :: after))) =
      some ({ name := name, parameterText := parameterText, body := body }, after) := by
  have htake : (parameterText ++ .character opening ::
      (body ++ .character closing :: after)).takeWhile (fun token => !opensGroup category token) =
        parameterText := by
    rw [List.takeWhile_append_of_pos fun token htoken => by simp [hparameter token htoken],
      List.takeWhile_cons_of_neg (by simp [opensGroup, hopening]), List.append_nil]
  rw [readDefinition, if_pos rfl]
  simp only [htake]
  rw [List.drop_append, List.drop_of_length_le (Nat.le_succ _), List.nil_append,
    Nat.add_sub_cancel_left, List.drop_one, List.tail_cons, readBody_append hclosing hbody]
  rfl

end TexTokens
