import Mathlib.Logic.Relation

/-!
# Contraction of a relation

A map that identifies points carries the walks of one relation to those of another, and back if points with one image
are joined by walks.

## Main results

- `contract`, `lift`
-/

namespace OnlDaemons.Lib

open Relation

variable {V W : Type} {R : V → V → Prop} {S : W → W → Prop} {f : V → W}

/-- Steps become steps, or nothing. -/
theorem contract (h : ∀ a b, R a b → f a = f b ∨ S (f a) (f b)) {a b : V} (hab : ReflTransGen R a b) :
    ReflTransGen S (f a) (f b) := by
  induction hab with
  | refl => exact .refl
  | tail _ hstep ih =>
    obtain heq | hstep := h _ _ hstep
    · rwa [← heq]
    · exact ih.tail hstep

/-- Steps come from steps. -/
theorem lift (hfib : ∀ a b, f a = f b → ReflTransGen R a b)
    (h : ∀ x y, S x y → ∃ a b, f a = x ∧ f b = y ∧ R a b) {x y : W} (hxy : ReflTransGen S x y) {a b : V}
    (ha : f a = x) (hb : f b = y) : ReflTransGen R a b := by
  induction hxy generalizing b with
  | refl => exact hfib a b (ha.trans hb.symm)
  | tail _ hstep ih =>
    obtain ⟨c, d, hc, hd, hcd⟩ := h _ _ hstep
    exact ((ih hc).tail hcd).trans (hfib d b (hd.trans hb.symm))

end OnlDaemons.Lib
