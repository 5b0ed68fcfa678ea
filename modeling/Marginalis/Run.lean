import Mathlib.Data.List.Basic
import Mathlib.Data.List.Induction

/-!
# Runs of a labelled transition system

`Run step s moves t` : from the state `s`, the labelled steps `moves` lead to `t`. Each
`Move` records the states around its step, so that a statement about a run can speak of
the state a step was taken in. An invariant is proved on the steps once and then holds in
every state a run visits (`Run.invariant`, `Run.invariant_of_mem`), and a run can be cut at
any of its moves (`Run.split`, `Run.of_mem`).
-/

/-- One step of a run with the states around it. -/
structure Move (σ α : Type*) where
  pre : σ
  label : α
  post : σ

/-- The steps `moves` lead from one state to the other. -/
inductive Run {σ α : Type*} (step : σ → α → σ → Prop) : σ → List (Move σ α) → σ → Prop
  | nil (s : σ) : Run step s [] s
  | snoc {s t u : σ} {moves : List (Move σ α)} {a : α} :
      Run step s moves t → step t a u → Run step s (moves ++ [⟨t, a, u⟩]) u

namespace Run

variable {σ α : Type*} {step : σ → α → σ → Prop} {s t u : σ} {moves moves' : List (Move σ α)}

/-- A property that every step keeps holds at the end of a run that starts with it. -/
theorem invariant {P : σ → Prop} (hstep : ∀ s a t, P s → step s a t → P t)
    (h : Run step s moves t) (hs : P s) : P t := by
  induction h with
  | nil => exact hs
  | snoc _ hlast ih => exact hstep _ _ _ ih hlast

theorem nil_iff : Run step s [] t ↔ s = t := by
  constructor
  · intro h
    generalize hl : ([] : List (Move σ α)) = l at h
    cases h with
    | nil => rfl
    | snoc => simp at hl
  · rintro rfl
    exact nil s

theorem snoc_iff {m : Move σ α} :
    Run step s (moves ++ [m]) t ↔
      Run step s moves m.pre ∧ step m.pre m.label m.post ∧ m.post = t := by
  constructor
  · intro h
    generalize hl : moves ++ [m] = l at h
    cases h with
    | nil => simp at hl
    | snoc h hlast =>
      obtain ⟨rfl, rfl⟩ := List.append_singleton_inj.mp hl
      exact ⟨h, hlast, rfl⟩
  · rintro ⟨h, hlast, rfl⟩
    exact snoc h hlast

/-- A run of two parts stops at a state in between. -/
theorem of_append (h : Run step s (moves ++ moves') t) :
    ∃ u, Run step s moves u ∧ Run step u moves' t := by
  induction moves' using List.reverseRecOn generalizing t with
  | nil => exact ⟨t, by simpa using h, nil t⟩
  | append_singleton moves' m ih =>
    rw [← List.append_assoc, snoc_iff] at h
    obtain ⟨h, hlast, rfl⟩ := h
    obtain ⟨u, hu, hu'⟩ := ih h
    exact ⟨u, hu, snoc hu' hlast⟩

theorem append (h : Run step s moves t) (h' : Run step t moves' u) :
    Run step s (moves ++ moves') u := by
  induction h' with
  | nil => simpa using h
  | snoc _ hlast ih =>
    rw [← List.append_assoc]
    exact snoc ih hlast

/-- A run up to one of its moves, that move, and the run after it. -/
theorem split {m : Move σ α} (h : Run step s (moves ++ m :: moves') t) :
    Run step s moves m.pre ∧ step m.pre m.label m.post ∧ Run step m.post moves' t := by
  rw [List.append_cons] at h
  obtain ⟨u, hu, hafter⟩ := of_append h
  obtain ⟨hbefore, hlast, rfl⟩ := snoc_iff.mp hu
  exact ⟨hbefore, hlast, hafter⟩

/-- A move of a run is a step, taken in a state the run had reached. -/
theorem of_mem (h : Run step s moves t) {m : Move σ α} (hm : m ∈ moves) :
    (∃ before, Run step s before m.pre) ∧ step m.pre m.label m.post ∧
      ∃ after, Run step m.post after t := by
  obtain ⟨before, after, rfl⟩ := List.append_of_mem hm
  obtain ⟨hbefore, hlast, hafter⟩ := h.split
  exact ⟨⟨before, hbefore⟩, hlast, ⟨after, hafter⟩⟩

/-- An invariant holds before every move of a run. -/
theorem invariant_of_mem {P : σ → Prop} (hstep : ∀ s a t, P s → step s a t → P t)
    (h : Run step s moves t) (hs : P s) {m : Move σ α} (hm : m ∈ moves) : P m.pre := by
  obtain ⟨⟨before, hbefore⟩, -, -⟩ := h.of_mem hm
  exact hbefore.invariant hstep hs

/-! ## Deterministic systems -/

/-- The moves of a deterministic system that is given the labels one after the other. -/
def trace (f : σ → α → σ) : σ → List α → List (Move σ α)
  | _, [] => []
  | s, a :: labels => ⟨s, a, f s a⟩ :: trace f (f s a) labels

/-- The trace of labels that are legal where they are given is a run. -/
theorem run_trace_of_legal {legal : σ → α → Prop} (f : σ → α → σ) (s : σ) (labels : List α)
    (h : ∀ m ∈ trace f s labels, legal m.pre m.label) :
    Run (fun s a t => legal s a ∧ t = f s a) s (trace f s labels) (labels.foldl f s) := by
  induction labels generalizing s with
  | nil => exact nil s
  | cons a labels ih =>
    have hlegal : legal s a := h ⟨s, a, f s a⟩ (List.mem_cons_self ..)
    have hfirst : Run (fun s a t => legal s a ∧ t = f s a) s ([] ++ [⟨s, a, f s a⟩]) (f s a) :=
      snoc (nil s) ⟨hlegal, rfl⟩
    exact hfirst.append (ih (f s a) fun m hm => h m (List.mem_cons_of_mem _ hm))

theorem run_trace (f : σ → α → σ) (s : σ) (labels : List α) :
    Run (fun s a t => t = f s a) s (trace f s labels) (labels.foldl f s) := by
  induction labels generalizing s with
  | nil => exact nil s
  | cons a labels ih =>
    have hfirst : Run (fun s a t => t = f s a) s ([] ++ [⟨s, a, f s a⟩]) (f s a) :=
      snoc (nil s) rfl
    exact hfirst.append (ih (f s a))

/-- The moves of a deterministic system whose labels are chosen in the states it reaches. -/
def schedule (f : σ → α → σ) (label : ℕ → σ → α) (s : σ) : ℕ → List (Move σ α) × σ
  | 0 => ([], s)
  | n + 1 =>
    let before := schedule f label s n
    let post := f before.2 (label n before.2)
    (before.1 ++ [⟨before.2, label n before.2, post⟩], post)

theorem run_schedule {legal : σ → α → Prop} (f : σ → α → σ) (label : ℕ → σ → α) (s : σ)
    (hlegal : ∀ n t, legal t (label n t)) (n : ℕ) :
    Run (fun s a t => legal s a ∧ t = f s a) s (schedule f label s n).1
      (schedule f label s n).2 := by
  induction n with
  | zero => exact nil s
  | succ n ih => exact snoc ih ⟨hlegal n _, rfl⟩

/-- The moves of a trace carry the labels that were given. -/
theorem label_mem_of_mem_trace {f : σ → α → σ} {labels : List α} {s : σ} {m : Move σ α}
    (hm : m ∈ trace f s labels) : m.label ∈ labels := by
  induction labels generalizing s with
  | nil => cases hm
  | cons a labels ih =>
    rcases List.mem_cons.mp hm with rfl | hm
    · exact List.mem_cons_self ..
    · exact List.mem_cons_of_mem _ (ih hm)

/-! ## Counters -/

section Counter

variable {f : σ → ℕ} (hstep : ∀ s a t, step s a t → f t = f s ∨ f t = f s + 1)
include hstep

theorem counter_le (h : Run step s moves t) : f s ≤ f t := by
  induction h with
  | nil => exact Nat.le_refl _
  | snoc _ hlast ih => rcases hstep _ _ _ hlast with h | h <;> omega

theorem counter_mem_le (h : Run step s moves t) {m : Move σ α} (hm : m ∈ moves) :
    f s ≤ f m.pre ∧ f m.post ≤ f t := by
  obtain ⟨⟨before, hbefore⟩, -, ⟨after, hafter⟩⟩ := h.of_mem hm
  exact ⟨hbefore.counter_le hstep, hafter.counter_le hstep⟩

/-- A counter that moves up by one passes every value in between in exactly one move. -/
theorem exists_increment (h : Run step s moves t) {r : ℕ} (hs : f s ≤ r) (ht : r < f t) :
    ∃ before m after, moves = before ++ m :: after ∧ f m.pre = r ∧ f m.post = r + 1 ∧
      (∀ m' ∈ before, f m'.post ≤ r) ∧ ∀ m' ∈ after, r < f m'.pre := by
  induction h with
  | nil => omega
  | @snoc t u moves a h hlast ih =>
    by_cases hr : r < f t
    · obtain ⟨before, m, after, rfl, hpre, hpost, hbefore, hafter⟩ := ih hr
      refine ⟨before, m, after ++ [⟨t, a, u⟩], by simp, hpre, hpost, hbefore, ?_⟩
      intro m' hm'
      rcases List.mem_append.mp hm' with hm' | hm'
      · exact hafter m' hm'
      · rw [List.mem_singleton.mp hm']
        exact hr
    · have hinc := hstep _ _ _ hlast
      refine ⟨moves, ⟨t, a, u⟩, [], rfl, ?_, ?_, ?_, by simp⟩
      · show f t = r
        omega
      · show f u = r + 1
        omega
      · intro m' hm'
        have := (h.counter_mem_le hstep hm').2
        omega

end Counter

end Run
