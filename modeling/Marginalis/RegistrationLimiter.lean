import Marginalis.SlidingWindow
import Marginalis.Table

/-!
# The limit on client registrations

A client registers itself without credentials, so registrations are limited by the origin of
its redirect URI. The limiter keeps a queue of times for each origin, and a call first forgets
what has left the window in all of them. `allow_iff_admits` : its answers are those of a sliding
window over the calls it allowed, and a call it refused changes no later answer.

An instant is the time since the earliest one the clock can represent.
-/

namespace Marginalis

open SlidingWindow

/-- The times of the registrations allowed for an origin. -/
structure OriginAttempts where
  origin : String
  attempts : List ℕ
  deriving DecidableEq, Repr

instance : Keyed OriginAttempts String := ⟨OriginAttempts.origin⟩

structure McpRegistrationRateLimiter where
  attemptsByRedirectOrigin : Table OriginAttempts
  limit : ℕ
  window : ℕ

/-- `Instant::checked_sub`. -/
def checkedSub (instant duration : ℕ) : Option ℕ :=
  if duration ≤ instant then some (instant - duration) else none

namespace McpRegistrationRateLimiter

def new (limit window : ℕ) : McpRegistrationRateLimiter := ⟨.empty, limit, window⟩

variable (limiter : McpRegistrationRateLimiter)

/-- The queues without the times up to the cutoff, and no empty queue. -/
def prune (now : ℕ) : Table OriginAttempts :=
  let cutoff := (checkedSub now limiter.window).getD now
  (limiter.attemptsByRedirectOrigin.modify (fun _ => true)
    fun entry =>
      { entry with attempts := entry.attempts.dropWhile fun t => t ≤ cutoff }).deleteWhere
      fun entry => entry.attempts.isEmpty

/-- The answer to a call, and the limiter afterwards. -/
def allow (redirectOrigin : String) (now : ℕ) : Bool × McpRegistrationRateLimiter :=
  let attemptsByOrigin := limiter.prune now
  if attemptsByOrigin.find redirectOrigin = none ∧ 1024 ≤ attemptsByOrigin.rows.length then
    (false, { limiter with attemptsByRedirectOrigin := attemptsByOrigin })
  else
    let attempts := ((attemptsByOrigin.find redirectOrigin).map OriginAttempts.attempts).getD []
    if limiter.limit ≤ attempts.length then
      (false, { limiter with
        attemptsByRedirectOrigin := attemptsByOrigin.upsert ⟨redirectOrigin, attempts⟩ })
    else
      (true, { limiter with
        attemptsByRedirectOrigin := attemptsByOrigin.upsert ⟨redirectOrigin, attempts ++ [now]⟩ })

/-! ## Calls one after the other -/

/-- The limiter after some calls. -/
def after (calls : List (String × ℕ)) : McpRegistrationRateLimiter :=
  calls.foldl (fun limiter call => (limiter.allow call.1 call.2).2) limiter

/-- The answers to some calls. -/
def answers : McpRegistrationRateLimiter → List (String × ℕ) → List Bool
  | _, [] => []
  | limiter, call :: calls =>
    (limiter.allow call.1 call.2).1 :: answers (limiter.allow call.1 call.2).2 calls

/-- The calls that are allowed. -/
def allowed : McpRegistrationRateLimiter → List (String × ℕ) → List (String × ℕ)
  | _, [] => []
  | limiter, call :: calls =>
    (if (limiter.allow call.1 call.2).1 then [call] else []) ++
      allowed (limiter.allow call.1 call.2).2 calls

/-- The times kept for an origin. -/
def attemptsOf (origin : String) : List ℕ :=
  ((limiter.attemptsByRedirectOrigin.find origin).map OriginAttempts.attempts).getD []

/-! ## What the queues hold -/

/-- From the cutoff of a call at `last` on, the queues hold the times of the log. -/
structure Represents (limiter : McpRegistrationRateLimiter) (log : List (String × ℕ)) (last : ℕ) :
    Prop where
  sorted : ∀ origin, (limiter.attemptsOf origin).Pairwise (· ≤ ·)
  past : ∀ event ∈ log, event.2 ≤ last
  agree : ∀ cutoff, last - limiter.window ≤ cutoff → ∀ origin,
    (limiter.attemptsOf origin).filter (fun t => cutoff < t) =
      (timesOf origin log).filter fun t => cutoff < t

variable {limiter} {limiter' : McpRegistrationRateLimiter} {log : List (String × ℕ)}
  {last now : ℕ} {origin : String} {entry : OriginAttempts}

theorem represents_new (limit window : ℕ) : (new limit window).Represents [] 0 where
  sorted := fun _ => List.Pairwise.nil
  past := by simp
  agree := fun _ _ _ => rfl

theorem Represents.mono (h : limiter.Represents log last) (hle : last ≤ now) :
    limiter.Represents log now where
  sorted := h.sorted
  past event hevent := (h.past event hevent).trans hle
  agree cutoff hcutoff := h.agree cutoff (by omega)

theorem find_prune (hwindow : limiter.window ≤ now) : (limiter.prune now).find origin =
    ((limiter.attemptsByRedirectOrigin.find origin).map fun entry =>
      ({ entry with attempts := entry.attempts.dropWhile fun t => t ≤ now - limiter.window } :
        OriginAttempts)).filter fun entry => !entry.attempts.isEmpty := by
  have hcutoff : (checkedSub now limiter.window).getD now = now - limiter.window := by
    rw [checkedSub, if_pos hwindow, Option.getD_some]
  simp only [prune, hcutoff, Table.find_deleteWhere, Table.find_modify, if_true]

/-- After the pruning of a call, an origin has the times of its log in the window, or no queue. -/
theorem Represents.find_prune (h : limiter.Represents log now) (hwindow : limiter.window ≤ now) :
    (limiter.prune now).find origin =
      if timesOf origin (inWindow limiter.window now log) = [] then none
      else some ⟨origin, timesOf origin (inWindow limiter.window now log)⟩ := by
  have htimes : (limiter.attemptsOf origin).dropWhile (fun t => t ≤ now - limiter.window) =
      timesOf origin (inWindow limiter.window now log) := by
    rw [dropWhile_eq_filter (h.sorted origin), h.agree _ le_rfl, timesOf_inWindow h.past hwindow]
  rw [McpRegistrationRateLimiter.find_prune hwindow]
  cases hfind : limiter.attemptsByRedirectOrigin.find origin with
  | none =>
    rw [attemptsOf, hfind] at htimes
    rw [← htimes]
    rfl
  | some entry =>
    have horigin : entry.origin = origin := Table.key_of_find hfind
    rw [attemptsOf, hfind] at htimes
    rw [← htimes, ← horigin, Option.map_some, Option.map_some, Option.getD_some]
    by_cases hempty : (entry.attempts.dropWhile fun t => t ≤ now - limiter.window) = []
    · simp [hempty]
    · rw [if_neg hempty, Option.filter_some_pos]
      simpa using hempty

theorem Represents.mem_prune (h : limiter.Represents log now) (hwindow : limiter.window ≤ now) :
    origin ∈ (limiter.prune now).rows.map OriginAttempts.origin ↔
      origin ∈ keys (inWindow limiter.window now log) := by
  have hkey : origin ∈ (limiter.prune now).rows.map OriginAttempts.origin ↔
      (limiter.prune now).find origin ≠ none := by
    simp [Table.find_eq_none, Table.mem_def, Keyed.key]
  rw [hkey, h.find_prune hwindow, mem_keys_inWindow h.past hwindow,
    timesOf_inWindow h.past hwindow]
  split_ifs with hempty <;> simp [hempty]

/-- After the pruning of a call there is a queue for every origin in the window. -/
theorem Represents.length_prune (h : limiter.Represents log now) (hwindow : limiter.window ≤ now) :
    (limiter.prune now).rows.length = (keys (inWindow limiter.window now log)).length := by
  have hperm : ((limiter.prune now).rows.map OriginAttempts.origin).Perm
      (keys (inWindow limiter.window now log)) :=
    (List.perm_ext_iff_of_nodup (limiter.prune now).nodup nodup_keys).mpr fun _ =>
      h.mem_prune hwindow
  rw [← List.length_map OriginAttempts.origin, hperm.length_eq]

/-! ## One call -/

theorem Represents.sorted_inWindow (h : limiter.Represents log now)
    (hwindow : limiter.window ≤ now) :
    (timesOf origin (inWindow limiter.window now log)).Pairwise (· ≤ ·) := by
  rw [timesOf_inWindow h.past hwindow, ← h.agree _ le_rfl]
  exact (h.sorted origin).filter _

theorem Represents.attemptsOf_prune (h : limiter.Represents log now)
    (hwindow : limiter.window ≤ now) :
    (((limiter.prune now).find origin).map OriginAttempts.attempts).getD [] =
      timesOf origin (inWindow limiter.window now log) := by
  rw [h.find_prune hwindow]
  split_ifs with hempty
  · exact hempty.symm
  · rfl

/-- What a call leaves : the times in the window, and its own when it is allowed. -/
theorem Represents.prolong (h : limiter.Represents log now) (hwindow : limiter.window ≤ now)
    {new : List (String × ℕ)} (hnew : ∀ event ∈ new, event.2 = now)
    (hsame : limiter'.window = limiter.window)
    (hattempts : ∀ origin, limiter'.attemptsOf origin =
      timesOf origin (inWindow limiter.window now log) ++ timesOf origin new) :
    limiter'.Represents (log ++ new) now where
  sorted origin := by
    have htimes : ∀ t ∈ timesOf origin new, t = now := fun t ht => hnew _ (mem_timesOf.mp ht)
    rw [hattempts, List.pairwise_append]
    refine ⟨h.sorted_inWindow hwindow, ?_, ?_⟩
    · exact List.pairwise_of_forall_mem_list fun t ht u hu => by rw [htimes t ht, htimes u hu]
    · intro t ht u hu
      rw [htimes u hu]
      exact h.past _ (List.mem_of_mem_filter (mem_timesOf.mp ht))
  past event hevent := by
    rcases List.mem_append.mp hevent with hold | hmem
    · exact h.past event hold
    · exact (hnew event hmem).le
  agree cutoff hcutoff origin := by
    rw [hsame] at hcutoff
    rw [hattempts, timesOf_append, List.filter_append, List.filter_append,
      timesOf_inWindow h.past hwindow, filter_filter_of_le hcutoff]

/-- The queues after a call that keeps or extends the queue of its origin. -/
theorem attemptsOf_upsert {table : Table OriginAttempts} {attempts : List ℕ} {other : String} :
    (McpRegistrationRateLimiter.attemptsOf
      { limiter with attemptsByRedirectOrigin := table.upsert ⟨origin, attempts⟩ } other) =
      if origin = other then attempts
      else ((table.find other).map OriginAttempts.attempts).getD [] := by
  unfold attemptsOf
  dsimp only
  rw [Table.find_upsert]
  by_cases hsame : origin = other
  · rw [if_pos hsame, if_pos (show Keyed.key _ = other from hsame)]
    rfl
  · rw [if_neg hsame, if_neg (show ¬Keyed.key _ = other from hsame)]

/-- The three ends of a call. -/
theorem Represents.allow_cases (h : limiter.Represents log now) (hwindow : limiter.window ≤ now)
    (origin : String) :
    (origin ∉ keys (inWindow limiter.window now log) ∧
      1024 ≤ (keys (inWindow limiter.window now log)).length ∧
      limiter.allow origin now =
        (false, { limiter with attemptsByRedirectOrigin := limiter.prune now })) ∨
    ((origin ∈ keys (inWindow limiter.window now log) ∨
        (keys (inWindow limiter.window now log)).length < 1024) ∧
      ∃ allowed : Bool, allowed =
          decide ((timesOf origin (inWindow limiter.window now log)).length < limiter.limit) ∧
        limiter.allow origin now = (allowed, { limiter with
          attemptsByRedirectOrigin := (limiter.prune now).upsert
            ⟨origin, timesOf origin (inWindow limiter.window now log) ++
              if allowed then [now] else []⟩ })) := by
  have hnone : (limiter.prune now).find origin = none ↔
      origin ∉ keys (inWindow limiter.window now log) := by
    rw [← h.mem_prune hwindow]
    simp [Table.find_eq_none, Table.mem_def, Keyed.key]
  have hlength := h.length_prune hwindow
  have hattempts : (((limiter.prune now).find origin).map OriginAttempts.attempts).getD [] =
      timesOf origin (inWindow limiter.window now log) := h.attemptsOf_prune hwindow
  unfold McpRegistrationRateLimiter.allow
  dsimp only
  by_cases hfull : (limiter.prune now).find origin = none ∧ 1024 ≤ (limiter.prune now).rows.length
  · rw [if_pos hfull]
    exact Or.inl ⟨hnone.mp hfull.1, hlength ▸ hfull.2, rfl⟩
  · rw [if_neg hfull, hattempts]
    rw [hnone, hlength, not_and_or, not_not, not_le] at hfull
    refine Or.inr ⟨hfull, _, rfl, ?_⟩
    by_cases hlimit : limiter.limit ≤ (timesOf origin (inWindow limiter.window now log)).length
    · simp [hlimit, not_lt.mpr hlimit]
    · simp [hlimit, not_le.mp hlimit]

/-- A call answers as the window does, and leaves the limiter with it in its queues when it is
allowed. -/
theorem Represents.allow (h : limiter.Represents log now) (hwindow : limiter.window ≤ now)
    (origin : String) :
    ((limiter.allow origin now).1 = true ↔
      Admits limiter.limit 1024 limiter.window log origin now) ∧
    (limiter.allow origin now).2.limit = limiter.limit ∧
    (limiter.allow origin now).2.window = limiter.window ∧
    (limiter.allow origin now).2.Represents
      (log ++ if (limiter.allow origin now).1 then [(origin, now)] else []) now := by
  rcases h.allow_cases hwindow origin with ⟨hkey, hfull, heq⟩ | ⟨hroom, allowed, hallowed, heq⟩
  · rw [heq]
    refine ⟨?_, rfl, rfl, ?_⟩
    · have hnot : ¬Admits limiter.limit 1024 limiter.window log origin now := by
        rintro ⟨-, hmem | hlt⟩
        · exact hkey hmem
        · omega
      simp [hnot]
    · refine h.prolong hwindow (by simp) rfl fun other => ?_
      rw [if_neg Bool.false_ne_true, timesOf_nil, List.append_nil]
      exact h.attemptsOf_prune hwindow
  · rw [heq]
    refine ⟨?_, rfl, rfl, ?_⟩
    · rw [hallowed, decide_eq_true_eq]
      exact ⟨fun hlimit => ⟨hlimit, hroom⟩, And.left⟩
    · refine h.prolong hwindow (by cases allowed <;> simp) rfl fun other => ?_
      rw [attemptsOf_upsert, h.attemptsOf_prune hwindow]
      by_cases hsame : origin = other
      · rw [if_pos hsame, ← hsame]
        cases allowed <;> simp [timesOf_singleton]
      · rw [if_neg hsame]
        cases allowed <;> simp [timesOf_singleton, hsame]

/-! ## Runs of calls -/

/-- The calls are in the order of their instants, which are all as late as the window is long. -/
structure Timely (window : ℕ) (calls : List (String × ℕ)) : Prop where
  ordered : (calls.map Prod.snd).Pairwise (· ≤ ·)
  representable : ∀ call ∈ calls, window ≤ call.2

theorem Timely.append {window : ℕ} {calls calls' : List (String × ℕ)}
    (h : Timely window (calls ++ calls')) : Timely window calls ∧ Timely window calls' := by
  have hordered := h.ordered
  rw [List.map_append, List.pairwise_append] at hordered
  exact ⟨⟨hordered.1, fun call hcall => h.representable call (List.mem_append_left _ hcall)⟩,
    ⟨hordered.2.1, fun call hcall => h.representable call (List.mem_append_right _ hcall)⟩⟩

theorem Timely.tail {window : ℕ} {call : String × ℕ} {calls : List (String × ℕ)}
    (h : Timely window (call :: calls)) : Timely window calls := by
  rw [← List.singleton_append] at h
  exact h.append.2

/-- The limiter after a run has the calls it allowed in its queues. -/
theorem Represents.after {calls : List (String × ℕ)} (h : limiter.Represents log last)
    (hcalls : Timely limiter.window calls) (hlast : ∀ call ∈ calls, last ≤ call.2)
    (hnow : ∀ call ∈ calls, call.2 ≤ now) (hle : last ≤ now) :
    (limiter.after calls).limit = limiter.limit ∧ (limiter.after calls).window = limiter.window ∧
      (limiter.after calls).Represents (log ++ limiter.allowed calls) now := by
  induction calls generalizing limiter log last with
  | nil =>
    refine ⟨rfl, rfl, ?_⟩
    rw [allowed, List.append_nil]
    exact h.mono hle
  | cons call calls ih =>
    have hordered := hcalls.ordered
    rw [List.map_cons, List.pairwise_cons] at hordered
    have hcall : limiter.window ≤ call.2 := hcalls.representable call (List.mem_cons_self ..)
    obtain ⟨-, hlimit, hwindow, hnext⟩ :=
      (h.mono (hlast call (List.mem_cons_self ..))).allow hcall call.1
    have hrest : Timely (limiter.allow call.1 call.2).2.window calls := by
      rw [hwindow]
      exact hcalls.tail
    obtain ⟨hlimit', hwindow', hafter⟩ := ih hnext hrest
      (fun later hlater => hordered.1 _ (List.mem_map_of_mem hlater))
      (fun later hlater => hnow later (List.mem_cons_of_mem _ hlater))
      (hnow call (List.mem_cons_self ..))
    refine ⟨hlimit'.trans hlimit, hwindow'.trans hwindow, ?_⟩
    rw [allowed, ← List.append_assoc]
    exact hafter

/-- Limiters with the same calls in their queues answer the same. -/
theorem Represents.answers_eq {calls : List (String × ℕ)} (h : limiter.Represents log last)
    (h' : limiter'.Represents log last) (hlimit : limiter'.limit = limiter.limit)
    (hwindow : limiter'.window = limiter.window) (hcalls : Timely limiter.window calls)
    (hlast : ∀ call ∈ calls, last ≤ call.2) :
    limiter'.answers calls = limiter.answers calls := by
  induction calls generalizing limiter limiter' log last with
  | nil => rfl
  | cons call calls ih =>
    have hordered := hcalls.ordered
    rw [List.map_cons, List.pairwise_cons] at hordered
    have hcall : limiter.window ≤ call.2 := hcalls.representable call (List.mem_cons_self ..)
    have hle := hlast call (List.mem_cons_self ..)
    obtain ⟨hadmits, hlimit₁, hwindow₁, hnext⟩ := (h.mono hle).allow hcall call.1
    obtain ⟨hadmits', hlimit₂, hwindow₂, hnext'⟩ :=
      (h'.mono hle).allow (hwindow ▸ hcall) call.1
    rw [hlimit, hwindow, ← hadmits] at hadmits'
    have hanswer : (limiter'.allow call.1 call.2).1 = (limiter.allow call.1 call.2).1 :=
      Bool.eq_iff_iff.mpr hadmits'
    rw [hanswer] at hnext'
    rw [answers, answers, hanswer]
    refine congrArg _ (ih hnext hnext' ?_ ?_ ?_ ?_)
    · rw [hlimit₁, hlimit₂, hlimit]
    · rw [hwindow₁, hwindow₂, hwindow]
    · rw [hwindow₁]
      exact hcalls.tail
    · exact fun later hlater => hordered.1 _ (List.mem_map_of_mem hlater)

/-- In a run of calls, one is allowed exactly when the window over the calls allowed before it
admits it, and the calls after a refused one are answered as if it had not been made. -/
theorem allow_iff_admits (limit window : ℕ) (before later : List (String × ℕ)) (origin : String)
    (now : ℕ) (hcalls : Timely window (before ++ (origin, now) :: later)) :
    ((((new limit window).after before).allow origin now).1 = true ↔
      Admits limit 1024 window ((new limit window).allowed before) origin now) ∧
    ((((new limit window).after before).allow origin now).1 = false →
      ((new limit window).after (before ++ [(origin, now)])).answers later =
        ((new limit window).after before).answers later) := by
  have hordered := hcalls.ordered
  rw [List.map_append, List.map_cons, List.pairwise_append, List.pairwise_cons] at hordered
  obtain ⟨hbefore, hrest⟩ := hcalls.append
  have hnow : ∀ call ∈ before, call.2 ≤ now := fun call hcall =>
    hordered.2.2 _ (List.mem_map_of_mem hcall) now (List.mem_cons_self ..)
  obtain ⟨hlimit, hwindow, hrepresents⟩ := (represents_new limit window).after hbefore
    (fun call _ => Nat.zero_le _) hnow (Nat.zero_le now)
  rw [List.nil_append] at hrepresents
  have hcall : ((new limit window).after before).window ≤ now := by
    rw [hwindow]
    exact hrest.representable (origin, now) (List.mem_cons_self ..)
  obtain ⟨hadmits, hlimit', hwindow', hnext⟩ := hrepresents.allow hcall origin
  rw [hlimit, hwindow] at hadmits
  refine ⟨hadmits, fun hrefused => ?_⟩
  rw [hrefused, if_neg Bool.false_ne_true, List.append_nil] at hnext
  have hsnoc : (new limit window).after (before ++ [(origin, now)]) =
      (((new limit window).after before).allow origin now).2 := by
    simp [after, List.foldl_append]
  rw [hsnoc]
  refine hrepresents.answers_eq hnext hlimit' hwindow' ?_ ?_
  · rw [hwindow]
    exact hrest.tail
  · exact fun call hcall => hordered.2.1.1 _ (List.mem_map_of_mem hcall)

theorem allow_iff_admits_refused :
    (new 1 5).answers [("a", 5), ("a", 9), ("b", 9), ("a", 10)] = [true, false, true, true] ∧
    ((((new 1 5).after [("a", 5)]).allow "a" 9).1 = true ↔
      Admits 1 1024 5 ((new 1 5).allowed [("a", 5)]) "a" 9) ∧
    ((((new 1 5).after [("a", 5)]).allow "a" 9).1 = false →
      ((new 1 5).after ([("a", 5)] ++ [("a", 9)])).answers [("b", 9), ("a", 10)] =
        ((new 1 5).after [("a", 5)]).answers [("b", 9), ("a", 10)]) :=
  ⟨by decide, allow_iff_admits 1 5 [("a", 5)] [("b", 9), ("a", 10)] "a" 9
    ⟨by decide, by decide⟩⟩

end McpRegistrationRateLimiter

end Marginalis
