import Mathlib.Data.List.Basic
import Mathlib.Data.List.Dedup
import Mathlib.Data.List.Nodup
import Mathlib.Order.Basic
import Marginalis.SortedPrefix

/-!
# Sliding windows

Events happen at times, each for a key. `Admits` is the rule of a limiter : a new event is
admitted while its key has fewer than `limit` admitted events in the window that ends now, and
no more than `capacity` keys have any. The window is open at its start : an event counts until
it is as old as the window is long.

A limiter that keeps the times of a key in a queue forgets the old ones from the front. On a
queue in the order of time that is a filter (`dropWhile_eq_filter`).
-/

namespace SlidingWindow

variable {κ : Type*} [DecidableEq κ]

/-- The events of a log that lie in the window which ends at `now`. -/
def inWindow (window now : ℕ) (log : List (κ × ℕ)) : List (κ × ℕ) :=
  log.filter fun event => now < event.2 + window ∧ event.2 ≤ now

/-- The times of the events of a key. -/
def timesOf (key : κ) (log : List (κ × ℕ)) : List ℕ :=
  (log.filter fun event => event.1 = key).map Prod.snd

/-- The keys with an event, each once. -/
def keys (log : List (κ × ℕ)) : List κ := (log.map Prod.fst).dedup

/-- A log of admitted events admits a new one. -/
def Admits (limit capacity window : ℕ) (log : List (κ × ℕ)) (key : κ) (now : ℕ) : Prop :=
  (timesOf key (inWindow window now log)).length < limit ∧
    (key ∈ keys (inWindow window now log) ∨ (keys (inWindow window now log)).length < capacity)

instance (limit capacity window : ℕ) (log : List (κ × ℕ)) (key : κ) (now : ℕ) :
    Decidable (Admits limit capacity window log key now) :=
  inferInstanceAs (Decidable (_ ∧ _))

variable {key key' : κ} {log log' : List (κ × ℕ)} {window now cutoff cutoff' t : ℕ}
  {times : List ℕ}

/-! ## Times in order -/

/-- The old times of a queue in order are at its front. -/
theorem dropWhile_eq_filter (h : times.Pairwise (· ≤ ·)) (cutoff : ℕ) :
    times.dropWhile (fun t => t ≤ cutoff) = times.filter fun t => cutoff < t := by
  have hfalling : SortedPrefix.Falling (fun t => decide (t ≤ cutoff)) times :=
    SortedPrefix.falling_of_sorted h fun a b hab hb => by
      rw [decide_eq_true_eq] at hb ⊢
      omega
  rw [SortedPrefix.dropWhile_eq_filter hfalling]
  refine List.filter_congr fun t _ => ?_
  rw [← decide_not, decide_eq_decide, not_le]

/-- Forgetting up to a cutoff loses nothing of what is later than another one. -/
theorem filter_filter_of_le (h : cutoff ≤ cutoff') :
    (times.filter fun t => cutoff < t).filter (fun t => cutoff' < t) =
      times.filter fun t => cutoff' < t := by
  rw [List.filter_filter]
  refine List.filter_congr fun t _ => ?_
  rw [← Bool.decide_and, decide_eq_decide]
  omega

/-! ## The log -/

@[simp] theorem timesOf_nil : timesOf key [] = [] := rfl

@[simp] theorem timesOf_append :
    timesOf key (log ++ log') = timesOf key log ++ timesOf key log' := by
  simp [timesOf]

theorem timesOf_singleton : timesOf key [(key', t)] = if key' = key then [t] else [] := by
  unfold timesOf
  split_ifs with h <;> simp [h]

theorem mem_timesOf : t ∈ timesOf key log ↔ (key, t) ∈ log := by
  simp only [timesOf, List.mem_map, List.mem_filter, decide_eq_true_eq, Prod.exists]
  constructor
  · rintro ⟨key, t, ⟨hmem, rfl⟩, rfl⟩
    exact hmem
  · intro hmem
    exact ⟨key, t, ⟨hmem, rfl⟩, rfl⟩

theorem mem_keys : key ∈ keys log ↔ ∃ t, (key, t) ∈ log := by
  simp [keys]

theorem nodup_keys : (keys log).Nodup := List.nodup_dedup _

/-- The window of a log without later events reaches back to a cutoff. -/
theorem timesOf_inWindow (hpast : ∀ event ∈ log, event.2 ≤ now) (hwindow : window ≤ now) :
    timesOf key (inWindow window now log) =
      (timesOf key log).filter fun t => now - window < t := by
  unfold timesOf inWindow
  rw [List.filter_map, List.filter_filter, List.filter_filter]
  refine congrArg _ (List.filter_congr fun event hevent => ?_)
  have hle := hpast event hevent
  have hlater : now < event.2 + window ↔ now - window < event.2 := by omega
  simp [hle, hlater, Bool.and_comm]

theorem mem_keys_inWindow (hpast : ∀ event ∈ log, event.2 ≤ now) (hwindow : window ≤ now) :
    key ∈ keys (inWindow window now log) ↔
      ((timesOf key log).filter fun t => now - window < t) ≠ [] := by
  rw [← timesOf_inWindow hpast hwindow, mem_keys, Ne, List.eq_nil_iff_forall_not_mem]
  simp only [mem_timesOf, not_forall, not_not]

end SlidingWindow
