import Mathlib.Data.List.Basic
import Mathlib.Tactic.TypeStar

/-!
# Runs of a partial step function

A labelled system is a partial function `step`: an action that is not enabled in
a state has no successor. A run carries a guard on each action and the state it
is taken in, so that a law that holds only of some runs is stated about exactly
those. An invariant is proved once from one step.
-/

namespace SmcPipeline.Runs

variable {σ α : Type*}

/-- Runs whose every action satisfies `ok` in the state it is taken in. -/
inductive Run (step : σ → α → Option σ) (ok : σ → α → Prop) : σ → List α → σ → Prop
  | nil (s : σ) : Run step ok s [] s
  | cons {s t u : σ} {a : α} {as : List α} :
      ok s a → step s a = some t → Run step ok t as u → Run step ok s (a :: as) u

/-- Executing a list of actions; `none` when one of them is not enabled. -/
def replay (step : σ → α → Option σ) : σ → List α → Option σ
  | s, [] => some s
  | s, a :: as => (step s a).bind fun t => replay step t as

theorem replay_append (step : σ → α → Option σ) (s : σ) (as bs : List α) :
    replay step s (as ++ bs) = (replay step s as).bind fun t => replay step t bs := by
  induction as generalizing s with
  | nil => rfl
  | cons a as ih =>
      rw [List.cons_append, replay, replay]
      cases step s a with
      | none => rfl
      | some t => exact ih t

/-- What each step keeps is kept by all of them. -/
theorem replay_invariant {step : σ → α → Option σ} {I : σ → Prop} {as : List α}
    (hstep : ∀ a ∈ as, ∀ s t, I s → step s a = some t → I t) {s t : σ}
    (h : replay step s as = some t) (hs : I s) : I t := by
  induction as generalizing s with
  | nil =>
      cases h
      exact hs
  | cons a as ih =>
      obtain ⟨ha, has⟩ := List.forall_mem_cons.mp hstep
      obtain ⟨u, hu, h⟩ := Option.bind_eq_some_iff.mp h
      exact ih has h (ha s u hs hu)

/-- The step function with its guard tested. -/
def checked (step : σ → α → Option σ) (ok : σ → α → Prop) [∀ s a, Decidable (ok s a)]
    (s : σ) (a : α) : Option σ :=
  if ok s a then step s a else none

section

variable {step : σ → α → Option σ} {ok ok' : σ → α → Prop}

theorem Run.invariant {I : σ → Prop}
    (hstep : ∀ s a t, I s → ok s a → step s a = some t → I t)
    {s t : σ} {as : List α} (h : Run step ok s as t) (hs : I s) : I t := by
  induction h with
  | nil _ => exact hs
  | cons hok hst _ ih => exact ih (hstep _ _ _ hs hok hst)

/-- A reflexive and transitive relation kept by each step relates the ends. -/
theorem Run.related {I : σ → Prop} {R : σ → σ → Prop}
    (refl : ∀ s, R s s) (trans : ∀ s t u, R s t → R t u → R s u)
    (hinv : ∀ s a t, I s → ok s a → step s a = some t → I t)
    (hstep : ∀ s a t, I s → ok s a → step s a = some t → R s t)
    {s t : σ} {as : List α} (h : Run step ok s as t) (hs : I s) : R s t := by
  induction h with
  | nil s => exact refl s
  | cons hok hst _ ih =>
      exact trans _ _ _ (hstep _ _ _ hs hok hst) (ih (hinv _ _ _ hs hok hst))

theorem Run.weaken (hok : ∀ s a, ok s a → ok' s a) {s t : σ} {as : List α}
    (h : Run step ok s as t) : Run step ok' s as t := by
  induction h with
  | nil s => exact .nil s
  | cons hg hst _ ih => exact .cons (hok _ _ hg) hst ih

/-- The same where the new guard needs what is known of the states of the run. -/
theorem Run.weaken_of {I : σ → Prop} (hinv : ∀ s a t, I s → ok s a → step s a = some t → I t)
    (hok : ∀ s a, I s → ok s a → ok' s a) {s t : σ} {as : List α} (h : Run step ok s as t)
    (hs : I s) : Run step ok' s as t := by
  induction h with
  | nil s => exact .nil s
  | cons hg hst _ ih => exact .cons (hok _ _ hs hg) hst (ih (hinv _ _ _ hs hg hst))

/-- Every prefix of a run is a run to a state the whole run passes through. -/
theorem Run.split {s u : σ} {as bs : List α} (h : Run step ok s (as ++ bs) u) :
    ∃ t, Run step ok s as t ∧ Run step ok t bs u := by
  induction as generalizing s with
  | nil => exact ⟨s, .nil s, h⟩
  | cons a as ih =>
      cases h with
      | cons hok hst hrest =>
          obtain ⟨t, h₁, h₂⟩ := ih hrest
          exact ⟨t, .cons hok hst h₁, h₂⟩

theorem Run.snoc {s t u : σ} {as : List α} (h : Run step ok s as t) {a : α} (hok : ok t a)
    (hst : step t a = some u) : Run step ok s (as ++ [a]) u := by
  induction h with
  | nil s => exact .cons hok hst (.nil u)
  | cons hg hst' _ ih => exact .cons hg hst' (ih hok hst)

theorem Run.of_replay {s t : σ} {as : List α} (h : replay step s as = some t) :
    Run step (fun _ _ => True) s as t := by
  induction as generalizing s with
  | nil =>
      cases h
      exact .nil _
  | cons a as ih =>
      obtain ⟨u, hst, hrest⟩ := Option.bind_eq_some_iff.mp h
      exact .cons trivial hst (ih hrest)

theorem Run.replay_eq {s t : σ} {as : List α} (h : Run step ok s as t) :
    replay step s as = some t := by
  induction h with
  | nil s => rfl
  | cons _ hst _ ih => rw [replay, hst, Option.bind_some, ih]

/-- The guard of the last action, in the state that the actions before it lead to. -/
theorem Run.guard_last {s t u : σ} {as : List α} {a : α} (h : Run step ok s (as ++ [a]) u)
    (ht : replay step s as = some t) : ok t a := by
  obtain ⟨mid, hpre, hlast⟩ := h.split
  obtain rfl : mid = t := Option.some.inj (hpre.replay_eq.symm.trans ht)
  cases hlast with
  | cons hok _ _ => exact hok

/-- A run of a detailed system is a run of the system that it is a detail of; an action without a
label leaves what they share as it is. -/
theorem Run.project {τ β : Type*} {step' : τ → β → Option τ} {guard : τ → β → Prop} (proj : σ → τ)
    (label : α → Option β)
    (hhidden : ∀ s a t, ok s a → step s a = some t → label a = none → proj t = proj s)
    (hvisible : ∀ s a t b, ok s a → step s a = some t → label a = some b →
      guard (proj s) b ∧ step' (proj s) b = some (proj t))
    {s t : σ} {as : List α} (h : Run step ok s as t) :
    Run step' guard (proj s) (as.filterMap label) (proj t) := by
  induction h with
  | nil s => exact .nil (proj s)
  | @cons s t u a as hok hst _ ih =>
      cases hlabel : label a with
      | none =>
          rw [List.filterMap_cons_none hlabel, ← hhidden s a t hok hst hlabel]
          exact ih
      | some b =>
          obtain ⟨hguard, hstep⟩ := hvisible s a t b hok hst hlabel
          rw [List.filterMap_cons_some hlabel]
          exact .cons hguard hstep ih

/-- An executed list of actions is a run when each passes the guard on its way. -/
theorem Run.of_checked [∀ s a, Decidable (ok s a)] {s t : σ} {as : List α}
    (h : replay (checked step ok) s as = some t) : Run step ok s as t := by
  induction as generalizing s with
  | nil =>
      cases h
      exact .nil _
  | cons a as ih =>
      simp only [replay, checked] at h
      split_ifs at h with hok
      · obtain ⟨u, hst, hrest⟩ := Option.bind_eq_some_iff.mp h
        exact .cons hok hst (ih hrest)
      · cases h

theorem Run.replay_checked [∀ s a, Decidable (ok s a)] {s t : σ} {as : List α}
    (h : Run step ok s as t) : replay (checked step ok) s as = some t := by
  induction h with
  | nil s => rfl
  | cons hg hst _ ih => rw [replay, checked, if_pos hg, hst, Option.bind_some, ih]

/-- The same with a test of the last state, for traces that are evaluated. -/
theorem Run.exists_of_checked (step : σ → α → Option σ) (ok : σ → α → Prop)
    [∀ s a, Decidable (ok s a)] (s : σ) (as : List α) (p : σ → Bool)
    (h : (replay (checked step ok) s as).map p = some true) :
    ∃ t, Run step ok s as t ∧ p t = true := by
  obtain ⟨t, ht, hp⟩ := Option.map_eq_some_iff.mp h
  exact ⟨t, Run.of_checked ht, hp⟩

/-- A step that an invariant always enables: every list of actions can be executed. -/
theorem exists_replay {I : σ → Prop} (hstep : ∀ s a, I s → ∃ t, step s a = some t ∧ I t)
    {s : σ} (hs : I s) (as : List α) : ∃ t, replay step s as = some t ∧ I t := by
  induction as generalizing s with
  | nil => exact ⟨s, rfl, hs⟩
  | cons a as ih =>
      obtain ⟨u, hu, hI⟩ := hstep s a hs
      obtain ⟨t, ht, hIt⟩ := ih hI
      exact ⟨t, by rw [replay, hu, Option.bind_some, ht], hIt⟩

end

end SmcPipeline.Runs
