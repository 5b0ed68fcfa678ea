import Mathlib.Combinatorics.SimpleGraph.Metric
import Mathlib.Data.List.Basic

/-!
# Breadth-first search

A round of the search visits the neighbours of the vertices reached last. After `n` rounds
the vertices reached are those at a distance of at most `n` from the origin (`mem_reached_iff`). A
round that reaches nothing ends the search (`search_eq_iterate`).
-/

namespace BreadthFirst

variable {V : Type*} [DecidableEq V] (neighbours : V → List V)

/-! ## The search -/

/-- Reach a vertex : all the vertices reached, and those of this round. -/
def visit (next : List V × List V) (v : V) : List V × List V :=
  if v ∈ next.1 then next else (next.1 ++ [v], next.2 ++ [v])

/-- One round, from the vertices reached so far and those reached last. -/
def expand (state : List V × List V) : List V × List V :=
  state.2.foldl (fun next u => (neighbours u).foldl visit next) (state.1, [])

/-- The vertices reached after so many rounds, fewer when a round reaches nothing. -/
def search : ℕ → List V × List V → List V
  | 0, state => state.1
  | rounds + 1, state =>
    let next := expand neighbours state
    if next.2 = [] then next.1 else search rounds next

variable {neighbours} {next state : List V × List V} {u v : V} {vs us : List V}

theorem mem_visit_fst : v ∈ (visit next u).1 ↔ v ∈ next.1 ∨ v = u := by
  unfold visit
  split_ifs with h
  · refine ⟨Or.inl, ?_⟩
    rintro (hv | rfl)
    · exact hv
    · exact h
  · simp

theorem mem_visit_snd : v ∈ (visit next u).2 ↔ v ∈ next.2 ∨ v ∉ next.1 ∧ v = u := by
  unfold visit
  split_ifs with h
  · refine ⟨Or.inl, ?_⟩
    rintro (hv | ⟨hv, rfl⟩)
    · exact hv
    · exact absurd h hv
  · rw [List.mem_append, List.mem_singleton]
    refine or_congr_right ⟨?_, And.right⟩
    rintro rfl
    exact ⟨h, rfl⟩

theorem mem_visits_fst : v ∈ (vs.foldl visit next).1 ↔ v ∈ next.1 ∨ v ∈ vs := by
  induction vs generalizing next with
  | nil => simp
  | cons u vs ih => rw [List.foldl_cons, ih, mem_visit_fst, List.mem_cons, or_assoc]

theorem mem_visits_snd : v ∈ (vs.foldl visit next).2 ↔ v ∈ next.2 ∨ v ∉ next.1 ∧ v ∈ vs := by
  induction vs generalizing next with
  | nil => simp
  | cons u vs ih =>
    rw [List.foldl_cons, ih, mem_visit_fst, mem_visit_snd, List.mem_cons]
    tauto

theorem mem_rounds_fst :
    v ∈ (us.foldl (fun next u => (neighbours u).foldl visit next) next).1 ↔
      v ∈ next.1 ∨ ∃ u ∈ us, v ∈ neighbours u := by
  induction us generalizing next with
  | nil => simp
  | cons u us ih => rw [List.foldl_cons, ih, mem_visits_fst, List.exists_mem_cons_iff, or_assoc]

theorem mem_rounds_snd :
    v ∈ (us.foldl (fun next u => (neighbours u).foldl visit next) next).2 ↔
      v ∈ next.2 ∨ v ∉ next.1 ∧ ∃ u ∈ us, v ∈ neighbours u := by
  induction us generalizing next with
  | nil => simp
  | cons u us ih =>
    rw [List.foldl_cons, ih, mem_visits_fst, mem_visits_snd, List.exists_mem_cons_iff]
    tauto

theorem mem_expand_fst :
    v ∈ (expand neighbours state).1 ↔ v ∈ state.1 ∨ ∃ u ∈ state.2, v ∈ neighbours u :=
  mem_rounds_fst

theorem mem_expand_snd :
    v ∈ (expand neighbours state).2 ↔ v ∉ state.1 ∧ ∃ u ∈ state.2, v ∈ neighbours u := by
  rw [expand, mem_rounds_snd]
  simp

/-- Nothing is reached from no vertices. -/
theorem expand_of_eq_nil (h : state.2 = []) : expand neighbours state = state := by
  rw [expand, h, List.foldl_nil, ← h]

/-- The search that stops early reaches the same vertices. -/
theorem search_eq_iterate (rounds : ℕ) (state : List V × List V) :
    search neighbours rounds state = ((expand neighbours)^[rounds] state).1 := by
  induction rounds generalizing state with
  | zero => rfl
  | succ rounds ih =>
    rw [search, Function.iterate_succ_apply]
    split_ifs with h
    · rw [Function.iterate_fixed (expand_of_eq_nil h)]
    · exact ih _

/-! ## Distances -/

section Distance

variable {V : Type*} (G : SimpleGraph V) {o u v : V} {n : ℕ}

/-- A vertex at the distance `n + 1` has a neighbour at the distance `n`. -/
theorem exists_adj_of_edist_eq_succ (h : G.edist o v = (n + 1 : ℕ)) :
    ∃ u, G.edist o u = n ∧ G.Adj u v := by
  obtain ⟨walk, hwalk⟩ := SimpleGraph.exists_walk_of_edist_eq_coe (SimpleGraph.edist_comm.trans h)
  cases walk with
  | nil => simp at hwalk
  | @cons _ u _ hadj walk =>
    have hlength : walk.length = n := by simpa using hwalk
    have hle : G.edist o u ≤ n := by
      rw [SimpleGraph.edist_comm, ← hlength]
      exact SimpleGraph.edist_le walk
    have hone : G.edist u v = 1 := SimpleGraph.edist_eq_one_iff_adj.mpr hadj.symm
    have hge : ((n + 1 : ℕ) : ℕ∞) ≤ G.edist o u + 1 := by
      rw [← h, ← hone]
      exact SimpleGraph.edist_triangle
    refine ⟨u, le_antisymm hle ?_, hadj.symm⟩
    rw [Nat.cast_add, Nat.cast_one] at hge
    exact (ENat.add_le_add_iff_right ENat.one_ne_top).mp hge

theorem edist_le_succ_iff : G.edist o v ≤ (n + 1 : ℕ) ↔
    G.edist o v ≤ n ∨ ∃ u, G.edist o u = n ∧ G.Adj u v := by
  constructor
  · intro h
    rcases h.lt_or_eq with hlt | heq
    · exact Or.inl (ENat.lt_natCast_add_one_iff.mp (by rwa [Nat.cast_add, Nat.cast_one] at hlt))
    · exact Or.inr (exists_adj_of_edist_eq_succ G heq)
  · rintro (h | ⟨u, hu, hadj⟩)
    · exact h.trans (by exact_mod_cast Nat.le_succ n)
    · calc G.edist o v ≤ G.edist o u + G.edist u v := SimpleGraph.edist_triangle
        _ = (n + 1 : ℕ) := by
          rw [hu, SimpleGraph.edist_eq_one_iff_adj.mpr hadj, Nat.cast_add, Nat.cast_one]

end Distance

/-! ## The vertices reached -/

variable {G : SimpleGraph V} {o : V} {n : ℕ}

/-- The neighbours the search visits are those of the graph, and maybe the vertex itself. -/
structure Visits (neighbours : V → List V) (G : SimpleGraph V) : Prop where
  adj : ∀ u v, v ∈ neighbours u → u = v ∨ G.Adj u v
  mem : ∀ u v, G.Adj u v → v ∈ neighbours u

theorem mem_iterate (h : Visits neighbours G) (n : ℕ) :
    (∀ v, v ∈ ((expand neighbours)^[n] ([o], [o])).1 ↔ G.edist o v ≤ n) ∧
      ∀ v, v ∈ ((expand neighbours)^[n] ([o], [o])).2 ↔ G.edist o v = n := by
  induction n with
  | zero =>
    have hzero : ∀ v, v ∈ [o] ↔ G.edist o v = 0 := fun v => by
      rw [List.mem_singleton, SimpleGraph.edist_eq_zero_iff, eq_comm]
    refine ⟨fun v => ?_, fun v => ?_⟩
    · rw [Nat.cast_zero, nonpos_iff_eq_zero]
      exact hzero v
    · rw [Nat.cast_zero]
      exact hzero v
  | succ n ih =>
    obtain ⟨hreached, hfrontier⟩ := ih
    have hround : ∀ v, (G.edist o v ≤ n ∨ ∃ u, G.edist o u = n ∧ v ∈ neighbours u) ↔
        G.edist o v ≤ (n + 1 : ℕ) := by
      intro v
      rw [edist_le_succ_iff]
      constructor
      · rintro (hle | ⟨u, hu, hv⟩)
        · exact Or.inl hle
        · rcases h.adj u v hv with rfl | hadj
          · exact Or.inl hu.le
          · exact Or.inr ⟨u, hu, hadj⟩
      · rintro (hle | ⟨u, hu, hadj⟩)
        · exact Or.inl hle
        · exact Or.inr ⟨u, hu, h.mem u v hadj⟩
    rw [Function.iterate_succ_apply']
    refine ⟨fun v => ?_, fun v => ?_⟩
    · rw [mem_expand_fst, hreached, ← hround]
      simp only [hfrontier]
    · rw [mem_expand_snd, hreached]
      simp only [hfrontier]
      constructor
      · rintro ⟨hnot, hu⟩
        have hle := (hround v).mp (Or.inr hu)
        refine le_antisymm hle ?_
        rw [Nat.cast_add, Nat.cast_one]
        exact Order.add_one_le_of_lt (not_le.mp hnot)
      · intro heq
        have hnot : ¬G.edist o v ≤ n := by
          rw [heq]
          exact_mod_cast Nat.not_succ_le_self n
        exact ⟨hnot, ((hround v).mpr heq.le).resolve_left hnot⟩

/-- The vertices reached after `n` rounds. -/
theorem mem_reached_iff (h : Visits neighbours G) :
    v ∈ ((expand neighbours)^[n] ([o], [o])).1 ↔ G.edist o v ≤ n :=
  (mem_iterate h n).1 v

end BreadthFirst
