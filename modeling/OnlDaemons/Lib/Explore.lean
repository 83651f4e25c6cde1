import Mathlib.Logic.Relation
import Mathlib.Tactic.Common

/-!
# Depth-first exploration of a graph

A recursive walk marks the nodes it visits and the links it follows. What one call of such a
walk does is a relation between the marks before and after it: a node it marks has all its
links marked, and a link it marks has its ends marked. The relation composes, so a walk is
verified call by call, without an account of the nodes that are still on the stack.

## Main definitions

- `Reach inc a b` — `b` can be reached from `a` over links
- `Explored inc m k m' k'` — what a finished call did to the node marks and the link marks
- `Closed inc m k` — no marked node or link has an unmarked neighbour
-/

namespace OnlDaemons.Lib

variable {N L : Type*}

/-- Nodes joined by a path of links; `inc l n` says that `n` is an end of `l`. -/
def Reach (inc : L → N → Prop) : N → N → Prop :=
  Relation.ReflTransGen (fun a b => ∃ l, inc l a ∧ inc l b)

namespace Reach

variable {inc : L → N → Prop} {a b c : N}

theorem refl (a : N) : Reach inc a a := Relation.ReflTransGen.refl

theorem trans (hab : Reach inc a b) (hbc : Reach inc b c) : Reach inc a c :=
  Relation.ReflTransGen.trans hab hbc

theorem symm (h : Reach inc a b) : Reach inc b a := by
  induction h with
  | refl => exact refl _
  | tail _ hbc ih =>
    obtain ⟨l, hb, hc⟩ := hbc
    exact Relation.ReflTransGen.head ⟨l, hc, hb⟩ ih

theorem link {l : L} (ha : inc l a) (hb : inc l b) : Reach inc a b :=
  Relation.ReflTransGen.single ⟨l, ha, hb⟩

/-- A set of nodes closed under links holds whatever can be reached from its nodes. -/
theorem induct {P : N → Prop} (hstep : ∀ l a b, inc l a → inc l b → P a → P b)
    (h : Reach inc a b) (ha : P a) : P b := by
  induction h with
  | refl => exact ha
  | tail _ hbc ih =>
    obtain ⟨l, hb, hc⟩ := hbc
    exact hstep l _ _ hb hc ih

end Reach

/-- What a finished call of the walk has done to the marks `m` of the nodes and `k` of the
links. -/
structure Explored (inc : L → N → Prop) (m : N → Prop) (k : L → Prop) (m' : N → Prop)
    (k' : L → Prop) : Prop where
  nodes : ∀ n, m n → m' n
  links : ∀ l, k l → k' l
  node : ∀ n, m' n → ¬m n → ∀ l, inc l n → k' l
  link : ∀ l, k' l → ¬k l → ∀ n, inc l n → m' n

/-- No marked node has an unmarked link, and no marked link an unmarked end. -/
structure Closed (inc : L → N → Prop) (m : N → Prop) (k : L → Prop) : Prop where
  node : ∀ n, m n → ∀ l, inc l n → k l
  link : ∀ l, k l → ∀ n, inc l n → m n

namespace Explored

variable {inc : L → N → Prop} {m m₁ m' : N → Prop} {k k₁ k' : L → Prop}

theorem refl : Explored inc m k m k :=
  ⟨fun _ h => h, fun _ h => h, fun _ h h' => absurd h h', fun _ h h' => absurd h h'⟩

theorem trans (h : Explored inc m k m₁ k₁) (h' : Explored inc m₁ k₁ m' k') :
    Explored inc m k m' k' where
  nodes n hn := h'.nodes n (h.nodes n hn)
  links l hl := h'.links l (h.links l hl)
  node n hn hm l hl := by
    by_cases h₁ : m₁ n
    · exact h'.links l (h.node n h₁ hm l hl)
    · exact h'.node n hn h₁ l hl
  link l hl hk n hn := by
    by_cases h₁ : k₁ l
    · exact h'.nodes n (h.link l h₁ hk n hn)
    · exact h'.link l hl h₁ n hn

/-- A call that first marks some nodes and then sees to it that all their links are marked. -/
theorem visit (h : Explored inc m₁ k m' k') (hm : ∀ n, m n → m₁ n)
    (hnew : ∀ n, m₁ n → ¬m n → ∀ l, inc l n → k' l) : Explored inc m k m' k' where
  nodes n hn := h.nodes n (hm n hn)
  links := h.links
  node n hn hnm l hl := by
    by_cases h₁ : m₁ n
    · exact hnew n h₁ hnm l hl
    · exact h.node n hn h₁ l hl
  link := h.link

/-- Marking the link `e` and then going on until both its ends are marked. -/
theorem follow {e : L} (h : Explored inc m k₁ m' k')
    (hk : ∀ l, k₁ l ↔ l = e ∨ k l) (he : ∀ n, inc e n → m' n) : Explored inc m k m' k' where
  nodes := h.nodes
  links l hl := h.links l ((hk l).mpr (Or.inr hl))
  node := h.node
  link l hl hlk n hn := by
    by_cases hle : l = e
    · exact he n (hle ▸ hn)
    · exact h.link l hl (fun h₁ => ((hk l).mp h₁).elim hle hlk) n hn

theorem closed (h : Explored inc m k m' k') (hc : Closed inc m k) : Closed inc m' k' where
  node n hn l hl := by
    by_cases hm : m n
    · exact h.links l (hc.node n hm l hl)
    · exact h.node n hn hm l hl
  link l hl n hn := by
    by_cases hk : k l
    · exact h.nodes n (hc.link l hk n hn)
    · exact h.link l hl hk n hn

/-- From an unmarked start, a finished walk has marked whatever can be reached over links that
were not marked before. -/
theorem reaches {a b : N} (h : Explored inc m k m' k') (hab : Reach inc a b)
    (hk : ∀ n l, Reach inc a n → inc l n → ¬k l) (hm : ∀ n, Reach inc a n → ¬m n)
    (ha : m' a) : m' b := by
  have key : Reach inc a b ∧ m' b := by
    refine hab.induct (P := fun n => Reach inc a n ∧ m' n) ?_ ⟨Reach.refl a, ha⟩
    rintro l x y hx hy ⟨hax, hmx⟩
    have hl : k' l := h.node x hmx (hm x hax) l hx
    exact ⟨hax.trans (Reach.link hx hy), h.link l hl (hk x l hax hx) y hy⟩
  exact key.2

end Explored

/-- What can be reached from a marked node is marked. -/
theorem Closed.reach {inc : L → N → Prop} {m : N → Prop} {k : L → Prop} (hc : Closed inc m k)
    {a b : N} (h : Reach inc a b) (ha : m a) : m b :=
  h.induct (fun l x y hx hy hmx => hc.link l (hc.node x hmx l hx) y hy) ha

end OnlDaemons.Lib
