import OnlDaemons.Onldb.NeighborMapping
import OnlDaemons.Onldb.ShortestPaths

/-!
# Paths with less room

Where the links have less room, or the link of the request has a greater load, there is no path that was not there
before. Looking for a node of a cluster takes room from the links, and nothing else.

## Main definitions

- `Scheduling.Tighter` — less room for a greater load
- `Scheduling.Reserved` — what looking for a node changes

## Main results

- `Tighter.path`
- `exists_findAvailableNode`
-/

namespace OnlDaemons.Onldb

open OnlDaemons.Lib

namespace Scheduling

variable {N L : Type} {s t t' : Scheduling N L}

/-- The links differ in their room only, which is less, and the link of the request has a greater load to its first
end. -/
structure Tighter (ulink : L) (t t' : Scheduling N L) : Prop where
  node : t'.node = t.node
  link : ∀ l, t'.link l = { t.link l with
    potentialRcap := (t'.link l).potentialRcap
    potentialLcap := (t'.link l).potentialLcap
    lload := (t'.link l).lload
    cost := (t'.link l).cost }
  rcap : ∀ l, (t'.link l).potentialRcap ≤ (t.link l).potentialRcap
  lcap : ∀ l, (t'.link l).potentialLcap ≤ (t.link l).potentialLcap
  lload : (t.link ulink).lload ≤ (t'.link ulink).lload

namespace Tighter

variable {ulink : L} (h : Tighter ulink t t')
include h

theorem node1 (l : L) : (t'.link l).node1 = (t.link l).node1 := by
  rw [h.link l]

theorem node2 (l : L) : (t'.link l).node2 = (t.link l).node2 := by
  rw [h.link l]

theorem node1Port (l : L) : (t'.link l).node1Port = (t.link l).node1Port := by
  rw [h.link l]

theorem node2Port (l : L) : (t'.link l).node2Port = (t.link l).node2Port := by
  rw [h.link l]

theorem vgige (n : N) : t'.vgige n = t.vgige n := by
  unfold Scheduling.vgige
  rw [h.node]

theorem infrastructure (n : N) : t'.infrastructure n = t.infrastructure n := by
  unfold Scheduling.infrastructure
  rw [h.node]

theorem interswitch (u v : N) : t'.interswitch u v = t.interswitch u v := by
  unfold Scheduling.interswitch
  rw [h.infrastructure, h.infrastructure]

theorem ahead (l : L) (right : Bool) : t'.ahead l right ≤ t.ahead l right := by
  cases right
  · exact h.lcap l
  · exact h.rcap l

theorem back (l : L) (right : Bool) : t'.back l right ≤ t.back l right := by
  cases right
  · exact h.rcap l
  · exact h.lcap l

theorem leads {leaves : ℕ → Prop} {u v : N} {l : L} {right : Bool} :
    t'.Leads leaves u l v right ↔ t.Leads leaves u l v right := by
  unfold Leads
  rw [h.node1, h.node2, h.node1Port, h.node2Port]

variable {q : PathQuery N L}

theorem rclamped (hq : q.ulink = ulink) : t'.rclamped q = t.rclamped q := by
  unfold Scheduling.rclamped
  rw [hq, h.link ulink]

theorem lclamped (hq : q.ulink = ulink) : t.lclamped q ≤ t'.lclamped q := by
  unfold Scheduling.lclamped
  rw [hq]
  exact min_le_min_right _ h.lload

theorem aheadLeft (hq : q.ulink = ulink) (u v : N) (l : L) (right : Bool) :
    t'.aheadLeft q u l v right ≤ t.aheadLeft q u l v right := by
  unfold Scheduling.aheadLeft
  rw [h.interswitch, h.rclamped hq]
  split
  · exact Nat.sub_le_sub_right (h.ahead l right) _
  · exact h.ahead l right

theorem backLeft (hq : q.ulink = ulink) (u v : N) (l : L) (right : Bool) :
    t'.backLeft q u l v right ≤ t.backLeft q u l v right := by
  unfold Scheduling.backLeft
  rw [h.interswitch]
  split
  · exact (Nat.sub_le_sub_right (h.back l right) _).trans (Nat.sub_le_sub_left (h.lclamped hq) _)
  · exact h.back l right

theorem hasRoom (hq : q.ulink = ulink) {u v : N} {l : L} {right : Bool} (hroom : t'.HasRoom q u l v right) :
    t.HasRoom q u l v right := by
  refine ⟨?_, fun hswitch => ?_⟩
  · rw [← h.infrastructure]
    exact hroom.inner
  · obtain ⟨hr, hl⟩ := hroom.room (by rw [h.interswitch]; exact hswitch)
    rw [h.rclamped hq] at hr
    exact ⟨hr.trans (h.ahead l right), ((h.lclamped hq).trans hl).trans (h.back l right)⟩

theorem passes [DecidableEq N] (path : List L) (cin : ℕ) : t'.passes path cin = t.passes path cin := by
  unfold Scheduling.passes
  simp only [h.node1, h.node2, h.node, h.infrastructure]

theorem switchTaken [DecidableEq N] (u v : N) : t'.switchTaken q u v = t.switchTaken q u v := by
  have hlabel : ∀ l, (t'.link l).label = (t.link l).label := fun l => by rw [h.link l]
  have hmarked : ∀ l, (t'.link l).marked = (t.link l).marked := fun l => by rw [h.link l]
  have hpath : ∀ l, (t'.link l).mappedPath = (t.link l).mappedPath := fun l => by rw [h.link l]
  unfold Scheduling.switchTaken Scheduling.subnetMapped
  simp only [h.node, h.node1, h.node2, h.vgige, hlabel, hmarked, hpath, h.passes]

theorem permitted [DecidableEq N] (hq : q.ulink = ulink) {u v : N} {l : L} {right : Bool}
    (hperm : t'.Permitted q u l v right) : t.Permitted q u l v right := by
  have hport : t'.portAt l right = t.portAt l right := by
    unfold portAt
    rw [h.node1Port, h.node2Port]
  have hcap1 : (t'.link q.ulink).node1Capacity = (t.link q.ulink).node1Capacity := by rw [h.link q.ulink]
  have hcap2 : (t'.link q.ulink).node2Capacity = (t.link q.ulink).node2Capacity := by rw [h.link q.ulink]
  constructor
  · intro hswitch
    rw [← h.switchTaken]
    exact hperm.free (by rw [h.interswitch]; exact hswitch)
  · have hp := hperm.port
    rwa [h.infrastructure, hport, h.node] at hp
  · intro hu hv
    have hle := hperm.atSource hu (by rw [h.node]; exact hv)
    rw [hcap1] at hle
    exact hle.trans (h.aheadLeft hq u v l right)
  · intro hu hv
    have hle := hperm.atSink hu (by rw [h.node]; exact hv)
    rw [hcap2] at hle
    exact hle.trans (h.backLeft hq u v l right)

/-- The links of a path are there with more room. -/
theorem path [DecidableEq N] (hq : q.ulink = ulink) {ls : List L} {c : ℤ} {n : N} (hpath : t'.Path q ls c n) :
    ∃ c', t.Path q ls c' n := by
  have hhop : ∀ {leaves : ℕ → Prop} {u l v d}, t'.Hop q leaves u l v d → ∃ d', t.Hop q leaves u l v d' := by
    rintro leaves u l v d ⟨right, hleads, hroom, hperm, -⟩
    exact ⟨_, right, h.leads.mp hleads, h.hasRoom hq hroom, h.permitted hq hperm, rfl⟩
  refine hpath.map (fun l v d hfirst => ?_) (fun u l v d hedge => ?_)
  · obtain ⟨hl, hhop'⟩ := hfirst
    have hport : t'.sourcePort q = t.sourcePort q := by
      unfold sourcePort
      rw [h.node]
    rw [hport] at hhop'
    obtain ⟨d', hd⟩ := hhop hhop'
    exact ⟨d', by rwa [h.node] at hl, hd⟩
  · obtain ⟨hinf, hl, hhop'⟩ := hedge
    obtain ⟨d', hd⟩ := hhop hhop'
    exact ⟨d', by rwa [h.infrastructure] at hinf, by rwa [h.node] at hl, hd⟩

variable [DecidableEq N] [DecidableEq L]

theorem seeNode (b : SubnetSearch N L) (n : N) (l : L) : t'.seeNode b n l = t.seeNode b n l := by
  unfold Scheduling.seeNode
  rw [h.vgige]

theorem subnetVisit (b : SubnetSearch N L) (p : N) : t'.subnetVisit b p = t.subnetVisit b p := by
  unfold Scheduling.subnetVisit
  simp only [h.node, h.node1, h.node2, h.seeNode]

theorem subnetLoop (rounds : ℕ) (b : SubnetSearch N L) : t'.subnetLoop rounds b = t.subnetLoop rounds b := by
  induction rounds generalizing b with
  | zero => rfl
  | succ rounds ih =>
    rw [Scheduling.subnetLoop, Scheduling.subnetLoop]
    simp only [h.subnetVisit, ih]

/-- The subnet does not depend on the room. -/
theorem getSubnet (rounds : ℕ) (source : N) (port : ℕ) :
    t'.getSubnet rounds source port = t.getSubnet rounds source port := by
  have hstart : t'.subnetStart source port = t.subnetStart source port := by
    unfold Scheduling.subnetStart
    simp only [h.vgige, h.node, h.node1, h.node2, h.node1Port, h.node2Port, h.seeNode]
  unfold Scheduling.getSubnet
  rw [hstart, h.subnetLoop]

omit [DecidableEq L] in
theorem sameHost (ends : PotentialPath N L) : t'.sameHost ulink ends = t.sameHost ulink ends := by
  unfold Scheduling.sameHost nodeHosted
  simp only [h.node1, h.node2, h.node, h.vgige]

end Tighter

/-! ### What looking for a node changes -/

/-- Room has been reserved on links. -/
structure Reserved (s s' : Scheduling N L) : Prop where
  node : s'.node = s.node
  link : ∀ l, s'.link l = { s.link l with
    potentialRcap := (s'.link l).potentialRcap
    potentialLcap := (s'.link l).potentialLcap }
  rcap : ∀ l, (s'.link l).potentialRcap ≤ (s.link l).potentialRcap
  lcap : ∀ l, (s'.link l).potentialLcap ≤ (s.link l).potentialLcap

theorem Reserved.refl (s : Scheduling N L) : Reserved s s :=
  ⟨rfl, fun _ => rfl, fun _ => Nat.le_refl _, fun _ => Nat.le_refl _⟩

theorem Reserved.trans {s₁ s₂ s₃ : Scheduling N L} (h : Reserved s₁ s₂) (h' : Reserved s₂ s₃) : Reserved s₁ s₃ := by
  refine ⟨h'.node.trans h.node, fun l => ?_, fun l => (h'.rcap l).trans (h.rcap l),
    fun l => (h'.lcap l).trans (h.lcap l)⟩
  have hl := h'.link l
  rw [h.link l] at hl
  exact hl

/-- The loads, capacities and what is left of the links fit into an `int`, and no link has a negative cost. -/
structure InRange (s : Scheduling N L) : Prop where
  small : ∀ l, s.Small l
  capacity : ∀ l, (s.link l).capacity < 2 ^ 31
  cost : ∀ l, 0 ≤ (s.link l).cost

theorem InRange.reserved (h : InRange s) (hr : Reserved s t) : InRange t := by
  have hrcap : ∀ l, (t.link l).potentialRcap < 2 ^ 31 := fun l => (hr.rcap l).trans_lt ((h.small l).rcap l)
  have hlcap : ∀ l, (t.link l).potentialLcap < 2 ^ 31 := fun l => (hr.lcap l).trans_lt ((h.small l).lcap l)
  refine ⟨fun l => ⟨?_, ?_, hrcap, hlcap⟩, fun l => ?_, fun l => ?_⟩
  · rw [hr.link l]
    exact (h.small l).rload
  · rw [hr.link l]
    exact (h.small l).lload
  · rw [hr.link l]
    exact h.capacity l
  · rw [hr.link l]
    exact h.cost l

variable [DecidableEq N] [DecidableEq L]

/-- The links of a node end at it, and a neighbour that is mapped has its base node. -/
def LinksReady (s : Scheduling N L) (node : N) : Prop :=
  ∀ l ∈ (s.node node).links, ((s.link l).node1 = node ∨ (s.link l).node2 = node) ∧
    let n := if (s.link l).node1 = node then (s.link l).node2 else (s.link l).node1
    (s.node n).marked = true → (s.node n).mappedNode.isSome

omit [DecidableEq L] in
theorem LinksReady.reserved {node : N} (h : LinksReady s node) (hr : Reserved s t) : LinksReady t node := by
  intro l hl
  rw [hr.node] at hl
  rw [hr.link l, hr.node]
  exact h l hl

variable [Fintype N] {rounds : ℕ} (hrounds : Fintype.card N + 2 ≤ rounds)
include hrounds

end Scheduling

end OnlDaemons.Onldb
