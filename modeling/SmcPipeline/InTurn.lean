import Mathlib.Data.List.Basic
import Mathlib.Tactic.TypeStar

/-!
# Partial maps that land where they stay

A map that may fail lands if it does nothing to what it returns. Maps that land and leave
each other's fixed points alone can be done in turn: whatever comes out is fixed by all of
them, so that the whole lands as well.
-/

namespace SmcPipeline.InTurn

variable {α : Type*}

def Lands (g : α → Option α) : Prop := ∀ a b, g a = some b → g b = some b

/-- What `g` fixes it still fixes after `h`. -/
def Keeps (g h : α → Option α) : Prop := ∀ a b, g a = some a → h a = some b → g b = some b

def inTurn : List (α → Option α) → α → Option α
  | [], a => some a
  | g :: gs, a => (g a).bind (inTurn gs)

theorem keeps_inTurn {g : α → Option α} {gs : List (α → Option α)} (h : ∀ h ∈ gs, Keeps g h) :
    Keeps g (inTurn gs) := by
  induction gs with
  | nil =>
      intro a b ha hb
      cases hb
      exact ha
  | cons k gs ih =>
      obtain ⟨hk, hgs⟩ := List.forall_mem_cons.mp h
      intro a b ha hb
      obtain ⟨c, hc, hb⟩ := Option.bind_eq_some_iff.mp hb
      exact ih hgs c b (hk a c ha hc) hb

theorem inTurn_of_fixed {gs : List (α → Option α)} {a : α} (h : ∀ g ∈ gs, g a = some a) :
    inTurn gs a = some a := by
  induction gs with
  | nil => rfl
  | cons g gs ih =>
      obtain ⟨hg, hgs⟩ := List.forall_mem_cons.mp h
      rw [inTurn, hg]
      exact ih hgs

theorem fixed_of_inTurn {gs : List (α → Option α)} {a b : α} (hlands : ∀ g ∈ gs, Lands g)
    (hkeeps : gs.Pairwise Keeps) (h : inTurn gs a = some b) : ∀ g ∈ gs, g b = some b := by
  induction gs generalizing a with
  | nil => exact fun g hg => absurd hg List.not_mem_nil
  | cons g gs ih =>
      obtain ⟨hg, hgs⟩ := List.forall_mem_cons.mp hlands
      obtain ⟨hfirst, hrest⟩ := List.pairwise_cons.mp hkeeps
      obtain ⟨c, hc, h⟩ := Option.bind_eq_some_iff.mp h
      exact List.forall_mem_cons.mpr
        ⟨keeps_inTurn hfirst c b (hg a c hc) h, ih hgs hrest h⟩

theorem lands_inTurn {gs : List (α → Option α)} (hlands : ∀ g ∈ gs, Lands g)
    (hkeeps : gs.Pairwise Keeps) : Lands (inTurn gs) :=
  fun _ _ h => inTurn_of_fixed (fixed_of_inTurn hlands hkeeps h)

end SmcPipeline.InTurn
