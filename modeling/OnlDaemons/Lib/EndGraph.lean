import Mathlib.Logic.Relation
import Mathlib.Data.Nat.Notation

/-!
# Walks that do not turn back

A graph with parallel edges and loops is given by the ends of its edges. A walk goes on from the end at which it has
arrived, if the node there can be passed, by any other end of an edge at the node.

## Main results

- `EndGraph.reach_flip` — a walk backwards
- `EndGraph.reach_or` — two walks from one end
- `EndGraph.Acyclic.not_reach_flip`, `EndGraph.Acyclic.not_reach_both` — an edge is passed in one direction only
-/

namespace OnlDaemons.Lib
open Relation

/-- The other end of the edge of an end `e` is `flip e`. Nodes with `inner` can be passed. -/
structure EndGraph (E V : Type*) where
  flip : E → E
  flip_flip : ∀ e, flip (flip e) = e
  flip_ne : ∀ e, flip e ≠ e
  node : E → V
  inner : V → Prop

namespace EndGraph

variable {E V : Type*} (g : EndGraph E V)

/-- From an end at which a walk has arrived to the next one. -/
def Next (e a : E) : Prop := g.inner (g.node e) ∧ g.node (g.flip a) = g.node e ∧ g.flip a ≠ e

def Reach : E → E → Prop := ReflTransGen g.Next

/-- No walk comes to an end again. -/
def Acyclic : Prop := ∀ e, ¬TransGen g.Next e e

variable {g} {e a b w x y : E}

theorem Reach.refl (e : E) : g.Reach e e := ReflTransGen.refl

theorem Reach.trans (h : g.Reach e a) (h' : g.Reach a b) : g.Reach e b := ReflTransGen.trans h h'

theorem Next.reach (h : g.Next e a) : g.Reach e a := ReflTransGen.single h

theorem Next.flip (h : g.Next e a) : g.Next (g.flip a) (g.flip e) := by
  obtain ⟨hinner, hnode, hne⟩ := h
  refine ⟨by rwa [hnode], ?_, ?_⟩
  · rw [g.flip_flip, hnode]
  · rw [g.flip_flip]
    exact hne.symm

theorem Reach.flip (h : g.Reach e a) : g.Reach (g.flip a) (g.flip e) := by
  induction h with
  | refl => exact .refl _
  | tail _ hstep ih => exact hstep.flip.reach.trans ih

theorem reach_flip : g.Reach (g.flip a) (g.flip e) ↔ g.Reach e a := by
  constructor
  · intro h
    have hf := h.flip
    rwa [g.flip_flip, g.flip_flip] at hf
  · exact Reach.flip

/-- A walk does not go on from a node that cannot be passed. -/
theorem Reach.eq_of_not_inner (h : g.Reach e a) (he : ¬g.inner (g.node e)) : a = e := by
  obtain rfl | ⟨b, hb, -⟩ := ReflTransGen.cases_head h
  · rfl
  · exact absurd hb.1 he

/-- Two walks that go on from a node by different ends: one way back and the other one on. -/
theorem Next.across (ha : g.Next e a) (hb : g.Next e b) (hne : a ≠ b) : g.Next (g.flip b) a := by
  refine ⟨by rw [hb.2.1]; exact ha.1, by rw [ha.2.1, hb.2.1], fun h => hne ?_⟩
  rw [← g.flip_flip a, h, g.flip_flip]

/-- Of two walks from one end, one is a part of the other, or they part at a node. -/
theorem reach_or (ha : g.Reach e a) (hb : g.Reach e b) :
    g.Reach a b ∨ g.Reach b a ∨ g.Reach (g.flip b) a := by
  induction ha using ReflTransGen.head_induction_on with
  | refl => exact .inl hb
  | @head e c hstep hrest ih =>
    obtain rfl | ⟨d, hd, hdb⟩ := ReflTransGen.cases_head hb
    · exact .inr (.inl (hstep.reach.trans hrest))
    · by_cases hcd : c = d
      · subst d
        exact ih hdb
      · exact .inr (.inr ((Reach.flip hdb).trans ((hstep.across hd hcd).reach.trans hrest)))

/-- Two walks that arrive at one end, from ends that no walk leads to, lead from one to the other. -/
theorem reach_of_common (hx : g.Reach (g.flip x) a) (hy : g.Reach (g.flip y) a) (hne : x ≠ y)
    (hxn : ¬g.inner (g.node x)) (hyn : ¬g.inner (g.node y)) : g.Reach (g.flip x) y := by
  have hxa : g.Reach (g.flip a) x := by
    have hf := hx.flip
    rwa [g.flip_flip] at hf
  have hya : g.Reach (g.flip a) y := by
    have hf := hy.flip
    rwa [g.flip_flip] at hf
  obtain h | h | h := reach_or hya hxa
  · exact absurd (h.eq_of_not_inner hyn) hne
  · exact absurd (h.eq_of_not_inner hxn) hne.symm
  · exact h

/-- The same when the walks pass an edge in opposite directions. -/
theorem reach_of_opposite (hx : g.Reach (g.flip x) a) (hy : g.Reach (g.flip y) (g.flip a)) :
    g.Reach (g.flip x) y := by
  have hf := hy.flip
  rw [g.flip_flip, g.flip_flip] at hf
  exact hx.trans hf

/-- What is reached from one end of a tree is reached from another one, in one direction or the other. -/
theorem reach_around (hw : g.Reach (g.flip w) x) (hb : g.Reach (g.flip x) b) (hwn : ¬g.inner (g.node w)) :
    g.Reach (g.flip w) b ∨ g.Reach (g.flip w) (g.flip b) ∨ b = w := by
  have hback := hw.flip
  rw [g.flip_flip] at hback
  obtain h | h | h := reach_or hb hback
  · exact .inr (.inl h.flip)
  · exact .inr (.inr (h.eq_of_not_inner hwn))
  · exact .inl h

/-- A walk of a number of steps. -/
def ReachIn (g : EndGraph E V) : ℕ → E → E → Prop
  | 0, e, a => e = a
  | n + 1, e, a => ∃ c, g.Next e c ∧ ReachIn g n c a

theorem ReachIn.reach {n : ℕ} (h : g.ReachIn n e a) : g.Reach e a := by
  induction n generalizing e with
  | zero =>
    cases h
    exact .refl _
  | succ n ih =>
    obtain ⟨c, hc, hrest⟩ := h
    exact hc.reach.trans (ih hrest)

theorem Reach.exists_reachIn (h : g.Reach e a) : ∃ n, g.ReachIn n e a := by
  induction h using ReflTransGen.head_induction_on with
  | refl => exact ⟨0, rfl⟩
  | head hstep _ ih =>
    obtain ⟨n, hn⟩ := ih
    exact ⟨n + 1, _, hstep, hn⟩

/-- The last step of a walk. -/
theorem ReachIn.tail {n : ℕ} (h : g.ReachIn (n + 1) e a) : ∃ d, g.ReachIn n e d ∧ g.Next d a := by
  induction n generalizing e with
  | zero =>
    obtain ⟨c, hc, rfl⟩ := h
    exact ⟨e, rfl, hc⟩
  | succ n ih =>
    obtain ⟨c, hc, hrest⟩ := h
    obtain ⟨d, hd, hda⟩ := ih hrest
    exact ⟨d, ⟨c, hc, hd⟩, hda⟩

/-- Walks that lose rank end. -/
theorem acyclic_of_rank (rank : E → ℕ) (h : ∀ e a, g.Next e a → rank a < rank e) : g.Acyclic := by
  have hwalk : ∀ e a, TransGen g.Next e a → rank a < rank e := by
    intro e a hw
    induction hw with
    | single hstep => exact h _ _ hstep
    | tail _ hstep ih => exact Nat.lt_trans (h _ _ hstep) ih
  exact fun e he => Nat.lt_irrefl _ (hwalk e e he)

namespace Acyclic

/-- A walk that comes back along its first edge has gone round a cycle. -/
theorem not_reachIn_flip (h : g.Acyclic) (n : ℕ) (e : E) : ¬g.ReachIn n e (g.flip e) := by
  induction n using Nat.strongRecOn generalizing e with
  | ind n ih =>
    intro hw
    match n with
    | 0 => exact g.flip_ne e hw.symm
    | 1 =>
      obtain ⟨c, hc, rfl⟩ := hw
      exact hc.2.2 (g.flip_flip e)
    | n + 2 =>
      obtain ⟨c, hc, hrest⟩ := hw
      obtain ⟨d, hd, hback⟩ := hrest.tail
      by_cases hdc : g.flip c = d
      · subst d
        exact ih n (by omega) c hd
      · have hnode : g.node d = g.node e := by rw [← hback.2.1, g.flip_flip]
        have hround : g.Next d c := ⟨by rw [hnode]; exact hc.1, by rw [hc.2.1, hnode], hdc⟩
        exact h c (TransGen.tail' hd.reach hround)

theorem not_reach_flip (h : g.Acyclic) (e : E) : ¬g.Reach e (g.flip e) := by
  intro hw
  obtain ⟨n, hn⟩ := hw.exists_reachIn
  exact h.not_reachIn_flip n e hn

theorem not_reach_both (h : g.Acyclic) (ha : g.Reach e a) : ¬g.Reach e (g.flip a) := by
  intro hf
  have hback := hf.flip
  rw [g.flip_flip] at hback
  exact h.not_reach_flip e (ha.trans hback)

end Acyclic

end EndGraph

end OnlDaemons.Lib
