import Mathlib.Data.List.Count
import Mathlib.Data.List.Nodup
import Mathlib.Data.List.Pairwise
import Mathlib.Tactic.Common
import OnlDaemons.Lib.Explore

/-!
# The VLANs of a session

`session::commit` asks for a VLAN for every virtual switch that has none yet and walks from it over
the links, through virtual switches that are connected to it. Then every link that was not reached
gets a VLAN of its own. Marks in the components and the links keep the walk from going round.

## Main definitions

- `SessionGraph` — the components and links of a session
- `followLinks`, `setVlans` — `set_vlans` and its loop
- `vgigeLoop`, `linkLoop`, `commitVlans` — the two loops of `commit`
- `Groups` — the VLANs are those of the groups of connected virtual switches

## Main results

- `setVlans_built`, `exists_setVlans` — what one walk does, and that it comes to an end
- `exists_groups` — the two loops end and leave `Groups`
-/

namespace OnlDaemons.Crd
open OnlDaemons.Lib

/-- The components and links that `commit` has made. `isVgige` stands for `get_type() == "vgige"`. -/
structure SessionGraph (C L : Type*) where
  components : List C
  links : List L
  node1 : L → C
  node2 : L → C
  name : C → String
  isVgige : C → Bool

/-- The marks and VLANs in the components and the links. `allocVlan` of a link says that it is to
get a VLAN of its own; a VLAN id of 0 is none. -/
structure VlanMarks (C L : Type*) where
  compMarked : C → Bool := fun _ => false
  compVlan : C → ℕ := fun _ => 0
  compAlloc : C → Bool := fun _ => false
  linkMarked : L → Bool := fun _ => false
  linkVlan : L → ℕ := fun _ => 0
  linkAlloc : L → Bool := fun _ => true

variable {C L : Type*}

namespace SessionGraph

/-- The end of a link that is not `c`; the source compares names. -/
def otherEnd (g : SessionGraph C L) (l : L) (c : C) : C :=
  if g.name (g.node1 l) = g.name c then g.node2 l else g.node1 l

/-- `n` is a virtual switch at an end of the link. -/
def Inc (g : SessionGraph C L) (l : L) (n : C) : Prop :=
  l ∈ g.links ∧ g.isVgige n = true ∧ (g.node1 l = n ∨ g.node2 l = n)

/-- The ends of the links are components, each component and each link is there once, and the
name of a virtual switch is its own. -/
structure Wf (g : SessionGraph C L) : Prop where
  comps : g.components.Nodup
  links : g.links.Nodup
  ends : ∀ l ∈ g.links, g.node1 l ∈ g.components ∧ g.node2 l ∈ g.components
  names : ∀ c ∈ g.components, ∀ c' ∈ g.components, g.isVgige c = true → g.name c' = g.name c →
    c' = c

variable {g : SessionGraph C L}

/-- A link of a virtual switch joins it to the other end. -/
theorem Wf.ends_eq (hg : g.Wf) {l : L} {c : C} (hl : g.Inc l c) {n : C}
    (hn : g.node1 l = n ∨ g.node2 l = n) : n = c ∨ n = g.otherEnd l c := by
  obtain ⟨hmem,hv,hc⟩ := hl
  obtain ⟨h1,h2⟩ := hg.ends l hmem
  have hcc : c ∈ g.components := by
    obtain h | h := hc
    · exact h ▸ h1
    · exact h ▸ h2
  unfold otherEnd
  split
  · next hname =>
    have heq := hg.names c hcc _ h1 hv hname
    obtain h | h := hn
    · exact .inl (h.symm.trans heq)
    · exact .inr h.symm
  · next hname =>
    have hne : g.node1 l ≠ c := fun h => hname (h ▸ rfl)
    obtain h | h := hn
    · exact .inr h.symm
    · exact .inl (h.symm.trans (hc.resolve_left hne))

theorem Wf.otherEnd_mem (hg : g.Wf) {l : L} {c : C} (hl : l ∈ g.links) :
    g.otherEnd l c ∈ g.components := by
  unfold otherEnd
  split
  · exact (hg.ends l hl).2
  · exact (hg.ends l hl).1

theorem inc_otherEnd {l : L} {c : C} (hl : l ∈ g.links) (hv : g.isVgige (g.otherEnd l c) = true) :
    g.Inc l (g.otherEnd l c) := by
  refine ⟨hl,hv,?_⟩
  unfold otherEnd
  split
  · exact .inr rfl
  · exact .inl rfl

end SessionGraph

variable [DecidableEq C] [DecidableEq L]

namespace VlanMarks

def markComp (s : VlanMarks C L) (c : C) : VlanMarks C L :=
  { s with compMarked := Function.update s.compMarked c true }

/-- `set_marked(true)` and `set_vlan` of a virtual switch. -/
def visit (s : VlanMarks C L) (c : C) (vlan : ℕ) : VlanMarks C L :=
  { s.markComp c with compVlan := Function.update s.compVlan c vlan }

/-- `set_marked(true)` and `set_vlan` of a link. -/
def follow (s : VlanMarks C L) (l : L) (vlan : ℕ) : VlanMarks C L :=
  { s with
    linkMarked := Function.update s.linkMarked l true
    linkVlan := Function.update s.linkVlan l vlan
    linkAlloc := Function.update s.linkAlloc l false }

def allocate (s : VlanMarks C L) (c : C) : VlanMarks C L :=
  { s with compAlloc := Function.update s.compAlloc c true }

end VlanMarks

namespace SessionGraph

variable (g : SessionGraph C L)

/-- `get_links`: `commit` adds each link to both its ends. -/
def compLinks (c : C) : List L :=
  g.links.flatMap fun l =>
    (if g.node1 l = c then [l] else []) ++ (if g.node2 l = c then [l] else [])

/-- The loop of `set_vlans` over the links of `c`. -/
def followLinks (setVlans : C → VlanMarks C L → Option (VlanMarks C L)) (vlan : ℕ) (c : C) :
    List L → VlanMarks C L → Option (VlanMarks C L)
  | [], s => some s
  | l :: ls, s =>
    if s.linkMarked l then followLinks setVlans vlan c ls s
    else
      let s := s.follow l vlan
      let other := g.otherEnd l c
      if s.compMarked other then followLinks setVlans vlan c ls s
      else if g.isVgige other then do
        let s ← setVlans other s
        followLinks setVlans vlan c ls s
      else followLinks setVlans vlan c ls (s.markComp other)

/-- `session::set_vlans`; the fuel bounds the depth of the recursion. -/
def setVlans (vlan : ℕ) : ℕ → C → VlanMarks C L → Option (VlanMarks C L)
  | 0, _, _ => none
  | fuel + 1, c, s =>
    g.followLinks (setVlans vlan fuel) vlan c (g.compLinks c) (s.visit c vlan)

/-- The first loop of `commit`. `addVlan k` is what the `k`-th call of `add_vlan` returns. -/
def vgigeLoop (addVlan : ℕ → ℕ) (fuel : ℕ) : List C → ℕ → VlanMarks C L →
    Option (ℕ × VlanMarks C L)
  | [], k, s => some (k, s)
  | c :: cs, k, s =>
    if s.compMarked c then vgigeLoop addVlan fuel cs k s
    else if g.isVgige c then
      if addVlan k = 0 then vgigeLoop addVlan fuel cs (k + 1) s
      else do
        let s ← g.setVlans (addVlan k) fuel c (s.allocate c)
        vgigeLoop addVlan fuel cs (k + 1) s
    else vgigeLoop addVlan fuel cs k s

end SessionGraph

/-- The second loop of `commit`, with `crd_link::allocate_vlan`. -/
def linkLoop (addVlan : ℕ → ℕ) (testing : Bool) : List L → ℕ → VlanMarks C L → VlanMarks C L
  | [], _, s => s
  | l :: ls, k, s =>
    if s.linkMarked l then linkLoop addVlan testing ls k s
    else if !testing && s.linkAlloc l && s.linkVlan l == 0 then
      linkLoop addVlan testing ls (k + 1)
        { s with linkVlan := Function.update s.linkVlan l (addVlan k) }
    else linkLoop addVlan testing ls k s

/-- The two loops of `session::commit`. -/
def SessionGraph.commitVlans (g : SessionGraph C L) (addVlan : ℕ → ℕ) (testing : Bool) (fuel : ℕ) :
    Option (VlanMarks C L) := do
  let (k, s) ← g.vgigeLoop addVlan fuel g.components 0 {}
  some (linkLoop addVlan testing g.links k s)

namespace SessionGraph

variable {g : SessionGraph C L}

omit [DecidableEq L] in
theorem mem_compLinks {l : L} {c : C} :
    l ∈ g.compLinks c ↔ l ∈ g.links ∧ (g.node1 l = c ∨ g.node2 l = c) := by
  unfold compLinks
  simp only [List.mem_flatMap,List.mem_append]
  constructor
  · rintro ⟨l',hl',h | h⟩
    · split at h
      · next h1 => exact List.mem_singleton.mp h ▸ ⟨hl',.inl h1⟩
      · exact absurd h List.not_mem_nil
    · split at h
      · next h2 => exact List.mem_singleton.mp h ▸ ⟨hl',.inr h2⟩
      · exact absurd h List.not_mem_nil
  · rintro ⟨hl,h | h⟩
    · exact ⟨l,hl,.inl (by rw [if_pos h]; exact List.mem_singleton_self l)⟩
    · exact ⟨l,hl,.inr (by rw [if_pos h]; exact List.mem_singleton_self l)⟩

/-! ### One walk -/

/-- What a finished walk with `vlan` from `c` has done. -/
structure Built (g : SessionGraph C L) (vlan : ℕ) (c : C) (s s' : VlanMarks C L) : Prop where
  explored : Explored g.Inc (s.compMarked · = true) (s.linkMarked · = true)
    (s'.compMarked · = true) (s'.linkMarked · = true)
  reach : ∀ n, g.isVgige n = true → s'.compMarked n = true → s.compMarked n = false →
    Reach g.Inc c n
  reachLink : ∀ l, s'.linkMarked l = true → s.linkMarked l = false →
    ∃ n, Reach g.Inc c n ∧ g.Inc l n
  comp : ∀ n, g.isVgige n = true →
    s'.compVlan n = if s'.compMarked n && !s.compMarked n then vlan else s.compVlan n
  link : ∀ l, (s'.linkVlan l, s'.linkAlloc l) =
    if s'.linkMarked l && !s.linkMarked l then (vlan, false) else (s.linkVlan l, s.linkAlloc l)
  alloc : s'.compAlloc = s.compAlloc

namespace Built

variable {vlan : ℕ} {c o : C} {l : L} {s s₁ s' : VlanMarks C L}

omit [DecidableEq C] [DecidableEq L] in
theorem refl : Built g vlan c s s where
  explored := Explored.refl
  reach n _ h h' := by rw [h] at h'; cases h'
  reachLink l h h' := by rw [h] at h'; cases h'
  comp n _ := by simp
  link l := by simp
  alloc := rfl

omit [DecidableEq C] [DecidableEq L] in
theorem trans (h : Built g vlan c s s₁) (h' : Built g vlan c s₁ s') : Built g vlan c s s' where
  explored := h.explored.trans h'.explored
  reach n hv hn hs := by
    cases h₁ : s₁.compMarked n with
    | false => exact h'.reach n hv hn h₁
    | true => exact h.reach n hv h₁ hs
  reachLink l hl hs := by
    cases h₁ : s₁.linkMarked l with
    | false => exact h'.reachLink l hl h₁
    | true => exact h.reachLink l h₁ hs
  comp n hv := by
    have hm := h.explored.nodes n
    have hm' := h'.explored.nodes n
    rw [h'.comp n hv,h.comp n hv]
    cases hs : s.compMarked n <;> cases hs₁ : s₁.compMarked n <;> cases hs' : s'.compMarked n <;>
      simp_all
  link l := by
    have hm := h.explored.links l
    have hm' := h'.explored.links l
    rw [h'.link l,h.link l]
    cases hs : s.linkMarked l <;> cases hs₁ : s₁.linkMarked l <;> cases hs' : s'.linkMarked l <;>
      simp_all
  alloc := h'.alloc.trans h.alloc

omit [DecidableEq C] in
/-- Marking a link of `c` and going on from a node behind it until its ends are marked. -/
theorem follow (hl : g.Inc l c) (hlm : s.linkMarked l = false) (ho : Reach g.Inc c o)
    (h : Built g vlan o (s.follow l vlan) s') (he : ∀ n, g.Inc l n → s'.compMarked n = true) :
    Built g vlan c s s' where
  explored := by
    refine h.explored.follow (e := l) (fun l' => ?_) he
    show Function.update s.linkMarked l true l' = true ↔ _
    by_cases hll : l' = l
    · simp [hll]
    · simp [hll]
  reach n hv hn hs := ho.trans (h.reach n hv hn hs)
  reachLink l' hl' hs := by
    by_cases hll : l' = l
    · exact ⟨c,Reach.refl c,hll ▸ hl⟩
    · obtain ⟨n,hr,hn⟩ := h.reachLink l' hl' (by simpa [VlanMarks.follow,hll] using hs)
      exact ⟨n,ho.trans hr,hn⟩
  comp := h.comp
  link l' := by
    rw [h.link l']
    by_cases hll : l' = l
    · subst hll
      have hm : s'.linkMarked l' = true := h.explored.links l' (by simp [VlanMarks.follow])
      simp [VlanMarks.follow,hm,hlm]
    · simp [VlanMarks.follow,hll]
  alloc := h.alloc

omit [DecidableEq L] in
theorem compMarked_markComp {n : C} (hn : s.compMarked n = true) (o : C) :
    (s.markComp o).compMarked n = true := by
  show Function.update s.compMarked o true n = true
  by_cases hno : n = o
  · simp [hno]
  · simpa [hno] using hn

omit [DecidableEq L] in
/-- Marking a component that is no virtual switch. -/
theorem markComp (ho : g.isVgige o = false) : Built g vlan c s (s.markComp o) where
  explored := by
    refine ⟨fun n hn => compMarked_markComp hn o,fun _ h => h,fun n hn hs l hl => ?_,
      fun _ h h' => absurd h h'⟩
    have hne : n ≠ o := fun h => by rw [← h,hl.2.1] at ho; cases ho
    exact absurd (by simpa [VlanMarks.markComp,hne] using hn) hs
  reach n hv hn hs := by
    have hne : n ≠ o := fun h => by rw [← h,hv] at ho; cases ho
    rw [show (s.markComp o).compMarked n = s.compMarked n by simp [VlanMarks.markComp,hne],hs] at hn
    cases hn
  reachLink l h h' := by
    rw [show (s.markComp o).linkMarked l = s.linkMarked l from rfl,h'] at h
    cases h
  comp n hv := by
    have hne : n ≠ o := fun h => by rw [← h,hv] at ho; cases ho
    simp [VlanMarks.markComp,hne]
  link l := by simp [VlanMarks.markComp]
  alloc := rfl

omit [DecidableEq L] in
/-- Marking `c` and then seeing to it that its links are marked. -/
theorem visit (hc : s.compMarked c = false) (h : Built g vlan c (s.visit c vlan) s')
    (hall : ∀ l, g.Inc l c → s'.linkMarked l = true) : Built g vlan c s s' where
  explored := by
    refine h.explored.visit (fun n hn => ?_) fun n hn hs l hl => ?_
    · show Function.update s.compMarked c true n = true
      by_cases hnc : n = c
      · simp [hnc]
      · simpa [hnc] using hn
    · by_cases hnc : n = c
      · exact hall l (hnc ▸ hl)
      · exact absurd (by simpa [VlanMarks.visit,VlanMarks.markComp,hnc] using hn) hs
  reach n hv hn hs := by
    by_cases hnc : n = c
    · rw [hnc]
      exact Reach.refl c
    · exact h.reach n hv hn (by simpa [VlanMarks.visit,VlanMarks.markComp,hnc] using hs)
  reachLink := h.reachLink
  comp n hv := by
    rw [h.comp n hv]
    by_cases hnc : n = c
    · subst hnc
      have hm : s'.compMarked n = true :=
        h.explored.nodes n (by simp [VlanMarks.visit,VlanMarks.markComp])
      simp [VlanMarks.visit,VlanMarks.markComp,hm,hc]
    · simp [VlanMarks.visit,VlanMarks.markComp,hnc]
  link := h.link
  alloc := h.alloc

end Built

/-- The loop over the links, given that the recursive calls do what they should. -/
theorem followLinks_built (hg : g.Wf) {vlan : ℕ}
    {setVlans : C → VlanMarks C L → Option (VlanMarks C L)}
    (hset : ∀ o s s', g.isVgige o = true → s.compMarked o = false → setVlans o s = some s' →
      Built g vlan o s s' ∧ s'.compMarked o = true) {c : C} {ls : List L}
    (hls : ∀ l ∈ ls, g.Inc l c) {s s' : VlanMarks C L} (hc : s.compMarked c = true)
    (h : g.followLinks setVlans vlan c ls s = some s') :
    Built g vlan c s s' ∧ ∀ l ∈ ls, s'.linkMarked l = true := by
  induction ls generalizing s with
  | nil =>
    cases h
    exact ⟨.refl,by simp⟩
  | cons l ls ih =>
    have hl := hls l List.mem_cons_self
    have hls' : ∀ l ∈ ls, g.Inc l c := fun l h => hls l (List.mem_cons_of_mem _ h)
    -- the rest of the loop after the link `l` has been seen to
    have hrest : ∀ s₁ : VlanMarks C L, Built g vlan c s s₁ → s₁.linkMarked l = true →
        g.followLinks setVlans vlan c ls s₁ = some s' →
        Built g vlan c s s' ∧ ∀ l' ∈ l :: ls, s'.linkMarked l' = true := by
      intro s₁ hb hm h
      obtain ⟨hb',hall⟩ := ih hls' (hb.explored.nodes c hc) h
      refine ⟨hb.trans hb',fun l' hl' => ?_⟩
      obtain rfl | hl' := List.mem_cons.mp hl'
      · exact hb'.explored.links l' hm
      · exact hall l' hl'
    unfold followLinks at h
    split at h
    · next hm => exact hrest s .refl hm h
    · next hm =>
      have hm : s.linkMarked l = false := by simpa using hm
      have hlf : (s.follow l vlan).linkMarked l = true := by simp [VlanMarks.follow]
      simp only at h
      have hcf : (s.follow l vlan).compMarked c = true := hc
      split at h
      · next ho =>
        refine hrest _ (Built.follow hl hm (Reach.refl c) .refl fun n hn => ?_) hlf h
        obtain rfl | rfl := hg.ends_eq hl hn.2.2
        · exact hc
        · exact ho
      · next ho =>
        have ho : (s.follow l vlan).compMarked (g.otherEnd l c) = false := by simpa using ho
        split at h
        · next hv =>
          obtain ⟨s₁,hs₁,h⟩ := Option.bind_eq_some_iff.mp h
          obtain ⟨hb,hmo⟩ := hset _ _ _ hv ho hs₁
          have hreach : Reach g.Inc c (g.otherEnd l c) := Reach.link hl (inc_otherEnd hl.1 hv)
          refine hrest s₁ (Built.follow hl hm hreach hb fun n hn => ?_)
            (hb.explored.links l hlf) h
          obtain rfl | rfl := hg.ends_eq hl hn.2.2
          · exact hb.explored.nodes n hcf
          · exact hmo
        · next hv =>
          have hv : g.isVgige (g.otherEnd l c) = false := by simpa using hv
          refine hrest _ (Built.follow hl hm (Reach.refl c) (Built.markComp hv) fun n hn => ?_)
            hlf h
          obtain rfl | rfl := hg.ends_eq hl hn.2.2
          · exact Built.compMarked_markComp hcf _
          · rw [hn.2.1] at hv
            cases hv

theorem setVlans_built (hg : g.Wf) {vlan fuel : ℕ} {c : C} {s s' : VlanMarks C L}
    (hv : g.isVgige c = true) (hc : s.compMarked c = false)
    (h : g.setVlans vlan fuel c s = some s') :
    Built g vlan c s s' ∧ s'.compMarked c = true := by
  induction fuel generalizing c s s' with
  | zero => cases h
  | succ fuel ih =>
    have hinc : ∀ l, l ∈ g.compLinks c ↔ g.Inc l c := fun l =>
      mem_compLinks.trans ⟨fun h => ⟨h.1,hv,h.2⟩,fun h => ⟨h.1,h.2.2⟩⟩
    obtain ⟨hb,hall⟩ := followLinks_built hg (fun o s s' hv hc h => ih hv hc h)
      (fun l hl => (hinc l).mp hl) (by simp [VlanMarks.visit,VlanMarks.markComp]) h
    exact ⟨Built.visit hc hb fun l hl => hall l ((hinc l).mpr hl),
      hb.explored.nodes c (by simp [VlanMarks.visit,VlanMarks.markComp])⟩

/-! ### The end of a walk -/

theorem countP_lt_of_mem {α : Type*} {p q : α → Bool} {l : List α} (h : ∀ x, p x = true → q x = true)
    {a : α} (ha : a ∈ l) (hq : q a = true) (hp : p a = false) : l.countP p < l.countP q := by
  obtain ⟨l₁,l₂,rfl⟩ := List.append_of_mem ha
  have h₁ := List.countP_mono_left (l := l₁) fun x _ => h x
  have h₂ := List.countP_mono_left (l := l₂) fun x _ => h x
  simp only [List.countP_append,List.countP_cons,hq,hp]
  simp only [if_true,Bool.false_eq_true,if_false]
  omega

/-- The number of virtual switches that have not been visited. -/
def unmarked (g : SessionGraph C L) (s : VlanMarks C L) : ℕ :=
  g.components.countP fun c => g.isVgige c && !s.compMarked c

omit [DecidableEq C] [DecidableEq L] in
theorem unmarked_le {s s' : VlanMarks C L}
    (h : ∀ n, s.compMarked n = true → s'.compMarked n = true) : g.unmarked s' ≤ g.unmarked s := by
  refine List.countP_mono_left fun n _ hn => ?_
  have hm := h n
  cases hs : s.compMarked n <;> simp_all

omit [DecidableEq L] in
theorem unmarked_visit {s : VlanMarks C L} {c : C} (vlan : ℕ) (hv : g.isVgige c = true)
    (hmem : c ∈ g.components) (hc : s.compMarked c = false) :
    g.unmarked (s.visit c vlan) < g.unmarked s := by
  refine countP_lt_of_mem (fun n hn => ?_) hmem (by simp [hv,hc])
    (by simp [VlanMarks.visit,VlanMarks.markComp])
  by_cases hnc : n = c
  · simp [hnc,VlanMarks.visit,VlanMarks.markComp] at hn
  · simpa [hnc,VlanMarks.visit,VlanMarks.markComp] using hn

theorem exists_followLinks (hg : g.Wf) {vlan fuel : ℕ}
    (htot : ∀ o s, o ∈ g.components → g.isVgige o = true → s.compMarked o = false →
      g.unmarked s ≤ fuel → ∃ s', g.setVlans vlan fuel o s = some s') {c : C} {ls : List L}
    (hls : ∀ l ∈ ls, l ∈ g.links) {s : VlanMarks C L} (hs : g.unmarked s ≤ fuel) :
    ∃ s', g.followLinks (g.setVlans vlan fuel) vlan c ls s = some s' := by
  induction ls generalizing s with
  | nil => exact ⟨s,rfl⟩
  | cons l ls ih =>
    have hls' : ∀ l ∈ ls, l ∈ g.links := fun l h => hls l (List.mem_cons_of_mem _ h)
    unfold followLinks
    split
    · exact ih hls' hs
    · simp only
      split
      · exact ih hls' hs
      · next ho =>
        have ho : (s.follow l vlan).compMarked (g.otherEnd l c) = false := by simpa using ho
        split
        · next hv =>
          obtain ⟨s₁,hs₁⟩ := htot _ _ (hg.otherEnd_mem (hls l List.mem_cons_self)) hv ho hs
          have hgrow := (setVlans_built hg hv ho hs₁).1.explored.nodes
          obtain ⟨s',hs'⟩ := ih hls' (Nat.le_trans (unmarked_le hgrow) hs)
          exact ⟨s',by rw [hs₁]; exact hs'⟩
        · next hv =>
          refine ih hls' (Nat.le_trans (unmarked_le fun n hn => ?_) hs)
          exact Built.compMarked_markComp hn _

/-- A walk ends, however the links go round: each call marks a virtual switch that was not marked. -/
theorem exists_setVlans (hg : g.Wf) (vlan : ℕ) {fuel : ℕ} {c : C} {s : VlanMarks C L}
    (hmem : c ∈ g.components) (hv : g.isVgige c = true) (hc : s.compMarked c = false)
    (hs : g.unmarked s ≤ fuel) : ∃ s', g.setVlans vlan fuel c s = some s' := by
  induction fuel generalizing c s with
  | zero =>
    have hlt := unmarked_visit vlan hv hmem hc
    omega
  | succ fuel ih =>
    have hlt := unmarked_visit vlan hv hmem hc
    exact exists_followLinks hg (fun o s hm hv hc hs => ih hm hv hc hs)
      (fun l hl => (mem_compLinks.mp hl).1) (by omega)

/-! ### The groups -/

/-- `roots` are the virtual switches that were given a VLAN, with the VLAN: the groups around them
have it, and nothing else has one. -/
structure Painted (g : SessionGraph C L) (roots : List (C × ℕ)) (s : VlanMarks C L) : Prop where
  root : ∀ r ∈ roots, r.1 ∈ g.components ∧ g.isVgige r.1 = true
  apart : roots.Pairwise fun r r' => ¬Reach g.Inc r.1 r'.1
  alloc : ∀ c, s.compAlloc c = true ↔ ∃ r ∈ roots, r.1 = c
  comp : ∀ r ∈ roots, ∀ c, Reach g.Inc r.1 c → s.compMarked c = true ∧ s.compVlan c = r.2
  compOut : ∀ c, g.isVgige c = true → (∀ r ∈ roots, ¬Reach g.Inc r.1 c) →
    s.compMarked c = false ∧ s.compVlan c = 0
  link : ∀ r ∈ roots, ∀ n l, Reach g.Inc r.1 n → g.Inc l n →
    s.linkMarked l = true ∧ s.linkVlan l = r.2
  linkOut : ∀ l, (∀ r ∈ roots, ∀ n, Reach g.Inc r.1 n → ¬g.Inc l n) →
    s.linkMarked l = false ∧ s.linkVlan l = 0 ∧ s.linkAlloc l = true

omit [DecidableEq C] [DecidableEq L] in
theorem painted_nil : Painted g [] ({} : VlanMarks C L) where
  root _ h := absurd h List.not_mem_nil
  apart := List.Pairwise.nil
  alloc c := by simp
  comp _ h := absurd h List.not_mem_nil
  compOut _ _ _ := ⟨rfl,rfl⟩
  link _ h := absurd h List.not_mem_nil
  linkOut _ _ := ⟨rfl,rfl,rfl⟩

omit [DecidableEq C] [DecidableEq L] in
/-- Reachable from a virtual switch are virtual switches. -/
theorem isVgige_of_reach {c n : C} (h : Reach g.Inc c n) (hv : g.isVgige c = true) :
    g.isVgige n = true :=
  h.induct (P := fun n => g.isVgige n = true) (fun _ _ _ _ hb _ => hb.2.1) hv

omit [DecidableEq L] in
/-- A walk from a virtual switch without a VLAN paints its group. -/
theorem Painted.walk {roots : List (C × ℕ)} {s s' : VlanMarks C L} {c : C} {vlan : ℕ}
    (h : Painted g roots s) (hmem : c ∈ g.components) (hv : g.isVgige c = true)
    (hc : s.compMarked c = false) (hb : Built g vlan c (s.allocate c) s')
    (hc' : s'.compMarked c = true) : Painted g ((c,vlan) :: roots) s' := by
  have hout : ∀ r ∈ roots, ¬Reach g.Inc r.1 c := fun r hr hrc => by
    rw [(h.comp r hr c hrc).1] at hc
    cases hc
  -- nothing in the group of `c` is marked
  have hcomp : ∀ n, Reach g.Inc c n → s.compMarked n = false := fun n hn =>
    (h.compOut n (isVgige_of_reach hn hv) fun r hr hrn => hout r hr (hrn.trans hn.symm)).1
  have hlink : ∀ n l, Reach g.Inc c n → g.Inc l n → s.linkMarked l = false := fun n l hn hl =>
    (h.linkOut l fun r hr n' hn' hl' =>
      hout r hr ((hn'.trans (Reach.link hl' hl)).trans hn.symm)).1
  have hmark : ∀ n, Reach g.Inc c n → s'.compMarked n = true := fun n hn =>
    hb.explored.reaches hn (fun n l hn hl => by
      show ¬s.linkMarked l = true
      rw [hlink n l hn hl]; simp) (fun n hn => by
      show ¬s.compMarked n = true
      rw [hcomp n hn]; simp) hc'
  have hmarkLink : ∀ n l, Reach g.Inc c n → g.Inc l n → s'.linkMarked l = true := fun n l hn hl =>
    hb.explored.node n (hmark n hn) (by
      show ¬s.compMarked n = true
      rw [hcomp n hn]; simp) l hl
  -- and nothing else is when the walk has ended
  have hrest : ∀ n, g.isVgige n = true → ¬Reach g.Inc c n → s'.compMarked n = s.compMarked n := by
    intro n hvn hn
    cases hs : s.compMarked n with
    | true => exact hb.explored.nodes n hs
    | false =>
      cases hs' : s'.compMarked n with
      | false => rfl
      | true => exact absurd (hb.reach n hvn hs' hs) hn
  have hrestLink : ∀ l, (∀ n, Reach g.Inc c n → ¬g.Inc l n) → s'.linkMarked l = s.linkMarked l := by
    intro l hl
    cases hs : s.linkMarked l with
    | true => exact hb.explored.links l hs
    | false =>
      cases hs' : s'.linkMarked l with
      | false => rfl
      | true =>
        obtain ⟨n,hn,hln⟩ := hb.reachLink l hs' hs
        exact absurd hln (hl n hn)
  refine ⟨?_,?_,fun n => ?_,?_,fun n hvn hn => ?_,?_,fun l hl => ?_⟩
  · exact List.forall_mem_cons.mpr ⟨⟨hmem,hv⟩,h.root⟩
  · exact List.pairwise_cons.mpr ⟨fun r hr hcr => hout r hr hcr.symm,h.apart⟩
  · have hex : (∃ r ∈ (c,vlan) :: roots, r.1 = n) ↔ c = n ∨ ∃ r ∈ roots, r.1 = n := by simp
    rw [hb.alloc,hex,← h.alloc n]
    show Function.update s.compAlloc c true n = true ↔ _
    by_cases hnc : n = c
    · simp [hnc]
    · rw [Function.update_of_ne hnc]
      exact (or_iff_right fun h => hnc h.symm).symm
  · refine List.forall_mem_cons.mpr ⟨fun n hn => ?_,fun r hr n hn => ?_⟩
    · refine ⟨hmark n hn,?_⟩
      have hs : (s.allocate c).compMarked n = false := hcomp n hn
      rw [hb.comp n (isVgige_of_reach hn hv),hmark n hn,hs]
      rfl
    · obtain ⟨hm,hvl⟩ := h.comp r hr n hn
      have hs : (s.allocate c).compMarked n = true := hm
      refine ⟨hb.explored.nodes n hs,?_⟩
      rw [hb.comp n (isVgige_of_reach hn (h.root r hr).2),hs,Bool.not_true,Bool.and_false]
      exact hvl
  · obtain ⟨hnc,hnr⟩ := List.forall_mem_cons.mp hn
    obtain ⟨hm,hvl⟩ := h.compOut n hvn hnr
    have hs' := (hrest n hvn hnc).trans hm
    refine ⟨hs',?_⟩
    rw [hb.comp n hvn,hs']
    exact hvl
  · refine List.forall_mem_cons.mpr ⟨fun n l hn hl => ?_,fun r hr n l hn hl => ?_⟩
    · have hm := hmarkLink n l hn hl
      have hs : (s.allocate c).linkMarked l = false := hlink n l hn hl
      refine ⟨hm,?_⟩
      have hvl := congrArg Prod.fst (hb.link l)
      rwa [hm,hs] at hvl
    · obtain ⟨hm,hvl⟩ := h.link r hr n l hn hl
      have hs : (s.allocate c).linkMarked l = true := hm
      refine ⟨hb.explored.links l hs,?_⟩
      have hl' := congrArg Prod.fst (hb.link l)
      rw [hs,Bool.not_true,Bool.and_false] at hl'
      exact hl'.trans hvl
  · obtain ⟨hnc,hnr⟩ := List.forall_mem_cons.mp hl
    obtain ⟨hm,hvl,hal⟩ := h.linkOut l hnr
    have hs' := (hrestLink l hnc).trans hm
    have hl' := hb.link l
    rw [hs'] at hl'
    exact ⟨hs',(congrArg Prod.fst hl').trans hvl,(congrArg Prod.snd hl').trans hal⟩

/-- What the first loop leaves after the components `cs`: roots with answers of `add_vlan` of their
own, and no virtual switch of `cs` without a VLAN unless `add_vlan` has failed. -/
theorem vgigeLoop_painted (hg : g.Wf) {addVlan : ℕ → ℕ} {fuel : ℕ}
    (hfuel : g.components.length ≤ fuel) {cs : List C} (hcs : ∀ c ∈ cs, c ∈ g.components)
    {k : ℕ} {s : VlanMarks C L} {roots : List (C × ℕ)} (h : Painted g roots s)
    (hfresh : ∀ i j, addVlan i = addVlan j → addVlan i ≠ 0 → i = j)
    (hroots : (roots.map Prod.snd).Nodup ∧ ∀ r ∈ roots, r.2 ≠ 0 ∧ ∃ i < k, addVlan i = r.2) :
    ∃ k' s' roots', g.vgigeLoop addVlan fuel cs k s = some (k', s') ∧ k ≤ k' ∧
      Painted g roots' s' ∧
      ((roots'.map Prod.snd).Nodup ∧ ∀ r ∈ roots', r.2 ≠ 0 ∧ ∃ i < k', addVlan i = r.2) ∧
      (∀ r ∈ roots, r ∈ roots') ∧
      ((∀ i, addVlan i ≠ 0) → ∀ c ∈ cs, g.isVgige c = true → ∃ r ∈ roots', Reach g.Inc r.1 c) := by
  induction cs generalizing k s roots with
  | nil =>
    exact ⟨k,s,roots,rfl,Nat.le_refl k,h,hroots,fun _ h => h,fun _ c hc => absurd hc List.not_mem_nil⟩
  | cons c cs ih =>
    have hcs' : ∀ c ∈ cs, c ∈ g.components := fun c h => hcs c (List.mem_cons_of_mem _ h)
    unfold vgigeLoop
    by_cases hm : s.compMarked c = true
    · rw [if_pos hm]
      obtain ⟨k',s',roots',hloop,hk,hp,hr,hsub,hall⟩ := ih hcs' h hroots
      refine ⟨k',s',roots',hloop,hk,hp,hr,hsub,fun hne => ?_⟩
      refine List.forall_mem_cons.mpr ⟨fun hv => ?_,hall hne⟩
      by_contra hno
      have hout := (h.compOut c hv fun r hr hrc => hno ⟨r,hsub r hr,hrc⟩).1
      rw [hm] at hout
      cases hout
    · rw [if_neg hm]
      have hm : s.compMarked c = false := by simpa using hm
      by_cases hv : g.isVgige c = true
      · rw [if_pos hv]
        by_cases hz : addVlan k = 0
        · rw [if_pos hz]
          obtain ⟨k',s',roots',hloop,hk,hp,hr,hsub,hall⟩ := ih (k := k + 1) hcs' h
            ⟨hroots.1,fun r hr => ⟨(hroots.2 r hr).1,by
              obtain ⟨i,hi,he⟩ := (hroots.2 r hr).2
              exact ⟨i,by omega,he⟩⟩⟩
          exact ⟨k',s',roots',hloop,by omega,hp,hr,hsub,fun hne => absurd hz (hne k)⟩
        · rw [if_neg hz]
          have hmem := hcs c List.mem_cons_self
          have hcount : g.unmarked (s.allocate c) ≤ fuel :=
            Nat.le_trans List.countP_le_length hfuel
          obtain ⟨s₁,hs₁⟩ := exists_setVlans hg (addVlan k) hmem hv
            (s := s.allocate c) hm hcount
          obtain ⟨hb,hmc⟩ := setVlans_built hg (s := s.allocate c) hv hm hs₁
          have hp₁ := h.walk hmem hv hm hb hmc
          have hroots₁ : ((((c,addVlan k) :: roots).map Prod.snd).Nodup ∧
              ∀ r ∈ (c,addVlan k) :: roots, r.2 ≠ 0 ∧ ∃ i < k + 1, addVlan i = r.2) := by
            refine ⟨?_,List.forall_mem_cons.mpr ⟨⟨hz,k,by omega,rfl⟩,fun r hr => ?_⟩⟩
            · rw [List.map_cons,List.nodup_cons]
              refine ⟨fun hin => ?_,hroots.1⟩
              obtain ⟨r,hr,he⟩ := List.mem_map.mp hin
              obtain ⟨hnz,i,hi,hie⟩ := hroots.2 r hr
              have := hfresh i k (hie.trans he) (hie ▸ hnz)
              omega
            · obtain ⟨hnz,i,hi,hie⟩ := hroots.2 r hr
              exact ⟨hnz,i,by omega,hie⟩
          obtain ⟨k',s',roots',hloop,hk,hp,hr,hsub,hall⟩ := ih hcs' hp₁ hroots₁
          refine ⟨k',s',roots',by rw [hs₁]; exact hloop,by omega,hp,hr,
            fun r hr => hsub r (List.mem_cons_of_mem _ hr),fun hne => ?_⟩
          refine List.forall_mem_cons.mpr ⟨fun _ => ?_,hall hne⟩
          exact ⟨_,hsub _ List.mem_cons_self,Reach.refl c⟩
      · rw [if_neg hv]
        obtain ⟨k',s',roots',hloop,hk,hp,hr,hsub,hall⟩ := ih hcs' h hroots
        exact ⟨k',s',roots',hloop,hk,hp,hr,hsub,fun hne =>
          List.forall_mem_cons.mpr ⟨fun hv' => absurd hv' hv,hall hne⟩⟩

omit [DecidableEq C] in
/-- In testing mode no link asks for a VLAN. -/
theorem linkLoop_testing (addVlan : ℕ → ℕ) (ls : List L) (k : ℕ) (s : VlanMarks C L) :
    linkLoop addVlan true ls k s = s := by
  induction ls with
  | nil => rfl
  | cons l ls ih =>
    show (if s.linkMarked l then linkLoop addVlan true ls k s else linkLoop addVlan true ls k s) = s
    rw [ite_self]
    exact ih

omit [DecidableEq C] in
/-- The second loop gives an answer of `add_vlan` of its own to each link without a mark, and leaves
the rest alone. -/
theorem linkLoop_spec (addVlan : ℕ → ℕ) {ls : List L} (hn : ls.Nodup) (k : ℕ)
    {s : VlanMarks C L}
    (hs : ∀ l ∈ ls, s.linkMarked l = false → s.linkVlan l = 0 ∧ s.linkAlloc l = true) :
    ∃ (s' : VlanMarks C L) (idx : L → ℕ), linkLoop addVlan false ls k s = s' ∧
      s'.compVlan = s.compVlan ∧ s'.compAlloc = s.compAlloc ∧
      (∀ l, l ∉ ls ∨ s.linkMarked l = true → s'.linkVlan l = s.linkVlan l) ∧
      (∀ l ∈ ls, s.linkMarked l = false → k ≤ idx l ∧ s'.linkVlan l = addVlan (idx l)) ∧
      ∀ l ∈ ls, ∀ l' ∈ ls, s.linkMarked l = false → s.linkMarked l' = false →
        idx l = idx l' → l = l' := by
  induction ls generalizing k s with
  | nil => exact ⟨s,fun _ => 0,rfl,rfl,rfl,fun _ _ => rfl,by simp,by simp⟩
  | cons l ls ih =>
    obtain ⟨hl,hn⟩ := List.nodup_cons.mp hn
    have hs' : ∀ l ∈ ls, s.linkMarked l = false → s.linkVlan l = 0 ∧ s.linkAlloc l = true :=
      fun l h => hs l (List.mem_cons_of_mem _ h)
    unfold linkLoop
    by_cases hm : s.linkMarked l = true
    · rw [if_pos hm]
      obtain ⟨s',idx,hloop,hv,ha,hk,hnew,hinj⟩ := ih hn (k := k) hs'
      refine ⟨s',idx,hloop,hv,ha,fun l' hl' => hk l' (hl'.imp_left fun h h' =>
        h (List.mem_cons_of_mem _ h')),?_,?_⟩
      · refine List.forall_mem_cons.mpr ⟨fun h => ?_,hnew⟩
        rw [hm] at h
        cases h
      · refine List.forall_mem_cons.mpr ⟨fun _ _ h => ?_,fun l₁ h₁ => ?_⟩
        · rw [hm] at h
          cases h
        · refine List.forall_mem_cons.mpr ⟨fun _ h => ?_,hinj l₁ h₁⟩
          rw [hm] at h
          cases h
    · rw [if_neg hm]
      have hm : s.linkMarked l = false := by simpa using hm
      obtain ⟨hz,hal⟩ := hs l List.mem_cons_self hm
      rw [if_pos (by rw [hz,hal]; rfl)]
      have hne : ∀ l' ∈ ls, l' ≠ l := fun l' h h' => hl (h' ▸ h)
      obtain ⟨s',idx,hloop,hv,ha,hk,hnew,hinj⟩ := ih hn (k := k + 1)
        (s := { s with linkVlan := Function.update s.linkVlan l (addVlan k) }) fun l' h hm' => by
          simpa [hne l' h] using hs' l' h hm'
      have hidx : ∀ l' ∈ ls, Function.update idx l k l' = idx l' := fun l' h =>
        Function.update_of_ne (hne l' h) k idx
      refine ⟨s',Function.update idx l k,hloop,hv,ha,fun l' hl' => ?_,?_,?_⟩
      · have hll : l' ≠ l := by
          rintro rfl
          obtain h | h := hl'
          · exact h List.mem_cons_self
          · rw [hm] at h
            cases h
        rw [hk l' (hl'.imp_left fun h h' => h (List.mem_cons_of_mem _ h'))]
        exact Function.update_of_ne hll (addVlan k) s.linkVlan
      · refine List.forall_mem_cons.mpr ⟨fun _ => ?_,fun l' h' hm' => ?_⟩
        · rw [Function.update_self,hk l (.inl hl)]
          exact ⟨Nat.le_refl k,Function.update_self l (addVlan k) s.linkVlan⟩
        · obtain ⟨hle,hvl⟩ := hnew l' h' hm'
          rw [hidx l' h']
          exact ⟨by omega,hvl⟩
      · refine List.forall_mem_cons.mpr ⟨?_,fun l₁ h₁ => ?_⟩
        · refine List.forall_mem_cons.mpr ⟨fun _ _ _ => rfl,fun l₂ h₂ _ hm₂ he => ?_⟩
          have hle := (hnew l₂ h₂ hm₂).1
          rw [hidx l₂ h₂,Function.update_self] at he
          omega
        · refine List.forall_mem_cons.mpr ⟨fun hm₁ _ he => ?_,fun l₂ h₂ hm₁ hm₂ he => ?_⟩
          · have hle := (hnew l₁ h₁ hm₁).1
            rw [hidx l₁ h₁,Function.update_self] at he
            omega
          · rw [hidx l₁ h₁,hidx l₂ h₂] at he
            exact hinj l₁ h₁ l₂ h₂ hm₁ hm₂ he

/-- The VLANs of the virtual switches and the links are those of the groups. A group to which
`add_vlan` gave no VLAN has none, and nobody in it is to free one. -/
structure Groups (g : SessionGraph C L) (addVlan : ℕ → ℕ) (testing : Bool) (s : VlanMarks C L) :
    Prop where
  /-- Connected virtual switches have the same VLAN. -/
  connected : ∀ c c', g.isVgige c = true → Reach g.Inc c c' → s.compVlan c = s.compVlan c'
  /-- Virtual switches with the same VLAN are connected. -/
  apart : ∀ c c', g.isVgige c = true → g.isVgige c' = true → s.compVlan c ≠ 0 →
    s.compVlan c = s.compVlan c' → Reach g.Inc c c'
  /-- A link of a virtual switch that has a VLAN carries it. -/
  touches : ∀ l c, g.Inc l c → s.compVlan c ≠ 0 → s.linkVlan l = s.compVlan c
  /-- Links with the same VLAN are links of virtual switches that are connected. -/
  links_apart : ∀ l ∈ g.links, ∀ l' ∈ g.links, l ≠ l' → s.linkVlan l ≠ 0 →
    s.linkVlan l = s.linkVlan l' → ∃ c c', g.Inc l c ∧ g.Inc l' c' ∧ Reach g.Inc c c' ∧
      s.compVlan c = s.linkVlan l
  /-- One virtual switch of each group that has a VLAN allocates it. -/
  allocates : ∀ c, g.isVgige c = true → s.compVlan c ≠ 0 →
    ∃! c', Reach g.Inc c c' ∧ s.compAlloc c' = true
  /-- A component that allocates a VLAN is a virtual switch that has it. -/
  allocated : ∀ c, s.compAlloc c = true → g.isVgige c = true ∧ s.compVlan c ≠ 0
  /-- Without a failure of `add_vlan` every virtual switch has a VLAN. -/
  served : (∀ k, addVlan k ≠ 0) → ∀ c ∈ g.components, g.isVgige c = true → s.compVlan c ≠ 0
  /-- And every link has one, except in testing mode those that touch no virtual switch. -/
  served_links : (∀ k, addVlan k ≠ 0) → ∀ l ∈ g.links,
    testing = false ∨ (∃ c, g.Inc l c) → s.linkVlan l ≠ 0

namespace Painted

variable {roots : List (C × ℕ)} {s : VlanMarks C L}

omit [DecidableEq C] [DecidableEq L] in
/-- A virtual switch is in the group of a root, or has no VLAN. -/
theorem comp_cases (h : Painted g roots s) {c : C} (hv : g.isVgige c = true) :
    (∃ r ∈ roots, Reach g.Inc r.1 c ∧ s.compVlan c = r.2) ∨
      (∀ r ∈ roots, ¬Reach g.Inc r.1 c) ∧ s.compVlan c = 0 := by
  by_cases hr : ∃ r ∈ roots, Reach g.Inc r.1 c
  · obtain ⟨r,hr,hrc⟩ := hr
    exact .inl ⟨r,hr,hrc,(h.comp r hr c hrc).2⟩
  · have hno : ∀ r ∈ roots, ¬Reach g.Inc r.1 c := fun r hm hrc => hr ⟨r,hm,hrc⟩
    exact .inr ⟨hno,(h.compOut c hv hno).2⟩

omit [DecidableEq C] [DecidableEq L] in
/-- A link touches the group of a root, or has no mark. -/
theorem link_cases (h : Painted g roots s) (l : L) :
    (∃ r ∈ roots, ∃ n, Reach g.Inc r.1 n ∧ g.Inc l n ∧ s.linkMarked l = true ∧
      s.linkVlan l = r.2) ∨
      s.linkMarked l = false ∧ ∀ r ∈ roots, ∀ n, Reach g.Inc r.1 n → ¬g.Inc l n := by
  by_cases hr : ∃ r ∈ roots, ∃ n, Reach g.Inc r.1 n ∧ g.Inc l n
  · obtain ⟨r,hr,n,hn,hl⟩ := hr
    obtain ⟨hm,hvl⟩ := h.link r hr n l hn hl
    exact .inl ⟨r,hr,n,hn,hl,hm,hvl⟩
  · have hno : ∀ r ∈ roots, ∀ n, Reach g.Inc r.1 n → ¬g.Inc l n := fun r hm n hn hl =>
      hr ⟨r,hm,n,hn,hl⟩
    exact .inr ⟨(h.linkOut l hno).1,hno⟩

omit [DecidableEq C] [DecidableEq L] in
theorem root_unique (h : Painted g roots s) {r r' : C × ℕ} (hr : r ∈ roots) (hr' : r' ∈ roots)
    (hreach : Reach g.Inc r.1 r'.1) : r = r' := by
  by_contra hne
  have hsymm : Std.Symm fun r r' : C × ℕ => ¬Reach g.Inc r.1 r'.1 := ⟨fun _ _ hn hs => hn hs.symm⟩
  exact h.apart.forall hr hr' hne hreach

end Painted

omit [DecidableEq C] in
/-- The second loop keeps what the first has done to the groups. -/
theorem Painted.groups {addVlan : ℕ → ℕ} {testing : Bool} {roots : List (C × ℕ)} {k : ℕ}
    {s : VlanMarks C L} (hg : g.Wf) (h : Painted g roots s)
    (hfresh : ∀ i j, addVlan i = addVlan j → addVlan i ≠ 0 → i = j)
    (hroots : (roots.map Prod.snd).Nodup ∧ ∀ r ∈ roots, r.2 ≠ 0 ∧ ∃ i < k, addVlan i = r.2)
    (hall : (∀ i, addVlan i ≠ 0) → ∀ c ∈ g.components, g.isVgige c = true →
      ∃ r ∈ roots, Reach g.Inc r.1 c) :
    Groups g addVlan testing (linkLoop addVlan testing g.links k s) := by
  have hfree : ∀ l ∈ g.links, s.linkMarked l = false → s.linkVlan l = 0 ∧ s.linkAlloc l = true := by
    intro l _ hm
    obtain ⟨_,_,_,_,_,hm',_⟩ | ⟨_,hno⟩ := h.link_cases l
    · rw [hm] at hm'
      cases hm'
    · exact (h.linkOut l hno).2
  -- the second loop in both modes
  obtain ⟨s',hloop,hv,ha,hkeep,hnew,hinj,hserve⟩ : ∃ s' : VlanMarks C L,
      linkLoop addVlan testing g.links k s = s' ∧ s'.compVlan = s.compVlan ∧
      s'.compAlloc = s.compAlloc ∧ (∀ l, s.linkMarked l = true → s'.linkVlan l = s.linkVlan l) ∧
      (∀ l ∈ g.links, s.linkMarked l = false → s'.linkVlan l ≠ 0 →
        ∃ i ≥ k, addVlan i = s'.linkVlan l) ∧
      (∀ l ∈ g.links, ∀ l' ∈ g.links, s.linkMarked l = false → s.linkMarked l' = false →
        s'.linkVlan l ≠ 0 → s'.linkVlan l = s'.linkVlan l' → l = l') ∧
      ((∀ i, addVlan i ≠ 0) → testing = false → ∀ l ∈ g.links, s.linkMarked l = false →
        s'.linkVlan l ≠ 0) := by
    cases testing with
    | true =>
      refine ⟨s,linkLoop_testing addVlan g.links k s,rfl,rfl,fun _ _ => rfl,?_,?_,
        fun _ h => (nomatch h)⟩
      · exact fun l hl hm hne => absurd (hfree l hl hm).1 hne
      · exact fun l hl _ _ hm _ hne => absurd (hfree l hl hm).1 hne
    | false =>
      obtain ⟨s',idx,hloop,hv,ha,hk,hnew,hinj⟩ := linkLoop_spec addVlan hg.links k hfree
      refine ⟨s',hloop,hv,ha,fun l hm => hk l (.inr hm),fun l hl hm _ => ?_,?_,?_⟩
      · obtain ⟨hle,hvl⟩ := hnew l hl hm
        exact ⟨idx l,hle,hvl.symm⟩
      · intro l hl l' hl' hm hm' hne he
        rw [(hnew l hl hm).2] at hne he
        rw [(hnew l' hl' hm').2] at he
        exact hinj l hl l' hl' hm hm' (hfresh _ _ he hne)
      · intro hne _ l hl hm
        rw [(hnew l hl hm).2]
        exact hne _
  rw [hloop]
  have hroot : ∀ r ∈ roots, ∀ r' ∈ roots, r.2 = r'.2 → r = r' := fun r hr r' hr' he =>
    List.inj_on_of_nodup_map hroots.1 hr hr' he
  -- a link without a mark never gets the VLAN of a group
  have hnever : ∀ l ∈ g.links, s.linkMarked l = false → ∀ r ∈ roots, s'.linkVlan l ≠ r.2 := by
    intro l hl hm r hr he
    obtain ⟨hnz,i,hi,hie⟩ := hroots.2 r hr
    obtain ⟨j,hj,hje⟩ := hnew l hl hm (he ▸ hnz)
    have := hfresh i j (hie.trans (he.symm.trans hje.symm)) (hie ▸ hnz)
    omega
  refine ⟨?_,?_,?_,?_,?_,?_,?_,?_⟩
  · intro c c' hc hcc
    rw [hv]
    obtain ⟨r,hr,hrc,he⟩ | ⟨hno,he⟩ := h.comp_cases hc
    · rw [he,(h.comp r hr c' (hrc.trans hcc)).2]
    · rw [he,(h.compOut c' (isVgige_of_reach hcc hc) fun r hr hrc =>
        hno r hr (hrc.trans hcc.symm)).2]
  · intro c c' hc hc' hne he
    rw [hv] at hne he
    obtain ⟨r,hr,hrc,hvl⟩ | ⟨_,hz⟩ := h.comp_cases hc
    · obtain ⟨r',hr',hrc',hvl'⟩ | ⟨_,hz⟩ := h.comp_cases hc'
      · obtain rfl := hroot r hr r' hr' (hvl.symm.trans (he.trans hvl'))
        exact hrc.symm.trans hrc'
      · exact absurd (he.trans hz) hne
    · exact absurd hz hne
  · intro l c hl hne
    rw [hv] at hne ⊢
    obtain ⟨r,hr,hrc,hvl⟩ | ⟨_,hz⟩ := h.comp_cases hl.2.1
    · obtain ⟨hm,hvl'⟩ := h.link r hr c l hrc hl
      rw [hkeep l hm,hvl',hvl]
    · exact absurd hz hne
  · intro l hl l' hl' hll hne he
    obtain ⟨r,hr,n,hn,hln,hm,hvl⟩ | ⟨hm,_⟩ := h.link_cases l
    · rw [hkeep l hm,hvl] at he
      obtain ⟨r',hr',n',hn',hln',hm',hvl'⟩ | ⟨hm',_⟩ := h.link_cases l'
      · rw [hkeep l' hm',hvl'] at he
        obtain rfl := hroot r hr r' hr' he
        refine ⟨n,n',hln,hln',hn.symm.trans hn',?_⟩
        rw [hv,hkeep l hm,hvl,(h.comp r hr n hn).2]
      · exact absurd he.symm (hnever l' hl' hm' r hr)
    · obtain ⟨r',hr',n',hn',hln',hm',hvl'⟩ | ⟨hm',_⟩ := h.link_cases l'
      · rw [hkeep l' hm',hvl'] at he
        exact absurd he (hnever l hl hm r' hr')
      · exact absurd (hinj l hl l' hl' hm hm' hne he) hll
  · intro c hc hne
    rw [hv] at hne
    rw [ha]
    obtain ⟨r,hr,hrc,hvl⟩ | ⟨_,hz⟩ := h.comp_cases hc
    · refine ⟨r.1,⟨hrc.symm,(h.alloc r.1).mpr ⟨r,hr,rfl⟩⟩,?_⟩
      rintro c' ⟨hcc,hal⟩
      obtain ⟨r',hr',rfl⟩ := (h.alloc c').mp hal
      rw [h.root_unique hr hr' (hrc.trans hcc)]
    · exact absurd hz hne
  · intro c hal
    rw [ha] at hal
    obtain ⟨r,hr,rfl⟩ := (h.alloc c).mp hal
    rw [hv,(h.comp r hr r.1 (Reach.refl r.1)).2]
    exact ⟨(h.root r hr).2,(hroots.2 r hr).1⟩
  · intro hne c hc hvc
    obtain ⟨r,hr,hrc⟩ := hall hne c hc hvc
    rw [hv,(h.comp r hr c hrc).2]
    exact (hroots.2 r hr).1
  · intro hne l hl htouch
    obtain ⟨r,hr,_,_,_,hm,hvl⟩ | ⟨hm,hno⟩ := h.link_cases l
    · rw [hkeep l hm,hvl]
      exact (hroots.2 r hr).1
    · obtain htest | ⟨c,hc⟩ := htouch
      · exact hserve hne htest l hl hm
      · have hmem : c ∈ g.components := by
          obtain ⟨h1,h2⟩ := hg.ends l hl
          obtain rfl | rfl := hc.2.2
          · exact h1
          · exact h2
        obtain ⟨r,hr,hrc⟩ := hall hne c hmem hc.2.1
        exact absurd hc (hno r hr c hrc)

/-- For every session graph the two loops of `commit` come to an end, and leave the VLANs of the
groups of connected virtual switches. -/
theorem exists_groups (hg : g.Wf) {addVlan : ℕ → ℕ} (testing : Bool)
    (hfresh : ∀ i j, addVlan i = addVlan j → addVlan i ≠ 0 → i = j) {fuel : ℕ}
    (hfuel : g.components.length ≤ fuel) :
    ∃ s, g.commitVlans addVlan testing fuel = some s ∧ Groups g addVlan testing s := by
  obtain ⟨k,s,roots,hloop,_,hp,hroots,_,hall⟩ := vgigeLoop_painted hg hfuel (fun c hc => hc)
    painted_nil hfresh (k := 0) ⟨List.nodup_nil,fun _ h => absurd h List.not_mem_nil⟩
  refine ⟨linkLoop addVlan testing g.links k s,?_,hp.groups hg hfresh hroots hall⟩
  show (do
    let (k,s) ← g.vgigeLoop addVlan fuel g.components 0 {}
    some (linkLoop addVlan testing g.links k s)) = _
  rw [hloop]
  rfl

/-- Two virtual switches with two links between them, and a host. -/
def pairSession : SessionGraph (Fin 3) (Fin 3) where
  components := [0,1,2]
  links := [0,1,2]
  node1 l := if l = 1 then 1 else 0
  node2 l := if l = 0 then 1 else if l = 1 then 0 else 2
  name c := if c = 0 then "vgige1" else if c = 1 then "vgige2" else "pc1core1"
  isVgige c := c ≠ 2

theorem exists_groups_pair :
    ∃ s, pairSession.commitVlans (fun k => k + 2) false 3 = some s ∧
      Groups pairSession (fun k => k + 2) false s :=
  exists_groups ⟨by decide,by decide,by decide,by decide⟩ false (fun _ _ h _ => by omega)
    (by decide)

/-- A virtual switch between two hosts. -/
def starSession : SessionGraph (Fin 3) (Fin 2) where
  components := [0,1,2]
  links := [0,1]
  node1 _ := 0
  node2 l := if l = 0 then 1 else 2
  name c := if c = 0 then "vgige1" else if c = 1 then "pc1core1" else "pc1core2"
  isVgige c := c = 0

/-- When the first `add_vlan` fails, the links of the virtual switch get VLANs of their own, and no
component allocates one. -/
theorem star_without_vlan : starSession.Wf ∧
    ∃ s, starSession.commitVlans (fun k => if k = 0 then 0 else k + 4) false 3 = some s ∧
      starSession.Inc 0 0 ∧ starSession.Inc 1 0 ∧ s.compVlan 0 = 0 ∧ s.linkVlan 0 = 5 ∧
      s.linkVlan 1 = 6 ∧ ∀ c, s.compAlloc c = false := by
  refine ⟨⟨by decide,by decide,by decide,by decide⟩,_,rfl,?_⟩
  unfold Inc
  decide

end SessionGraph

end OnlDaemons.Crd
