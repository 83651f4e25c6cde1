import OnlDaemons.Lib.Walks
import OnlDaemons.Onldb.CheapestPath
import Mathlib.Tactic.Common

/-!
# The paths that the search finds

A walk from the source follows links with room for the load from switch to switch. The search keeps, for each
number of links, a cheapest walk to every node that no shorter walk leads to, so it finds a cheapest one of
the walks with the least number of links to the sink.

## Main definitions

- `Scheduling.Hop` — a link that can be taken
- `Scheduling.Path` — a walk from the source

## Main result

- `Scheduling.findCheapestPath_spec`
-/

namespace OnlDaemons.Onldb
open OnlDaemons.Lib

namespace Scheduling

variable {N L : Type} (s : Scheduling N L) (q : PathQuery N L)

/-! ### What a path is -/

/-- The load of the link that an inter-switch link is to have room for. -/
def rclamped : ℕ := min (s.link q.ulink).rload MAX_INTERCLUSTER_CAPACITY

def lclamped : ℕ := min (s.link q.ulink).lload MAX_INTERCLUSTER_CAPACITY

/-- What is left of a link in the direction it is taken, and in the other one. -/
def ahead (l : L) (right : Bool) : ℕ := if right then (s.link l).potentialRcap else (s.link l).potentialLcap

def back (l : L) (right : Bool) : ℕ := if right then (s.link l).potentialLcap else (s.link l).potentialRcap

def interswitch (u v : N) : Bool := s.infrastructure u && s.infrastructure v

/-- The link leads from one node to the other, by a port that may be used. -/
def Leads (leaves : ℕ → Prop) (u : N) (l : L) (v : N) : Bool → Prop
  | true => ((s.link l).node1 = u ∧ leaves (s.link l).node1Port) ∧ (s.link l).node2 = v
  | false => ¬((s.link l).node1 = u ∧ leaves (s.link l).node1Port) ∧
      ((s.link l).node2 = u ∧ leaves (s.link l).node2Port) ∧ (s.link l).node1 = v

/-- The port by which the link comes to its end. -/
def portAt (l : L) (right : Bool) : ℕ := if right then (s.link l).node2Port else (s.link l).node1Port

def aheadLeft (u : N) (l : L) (v : N) (right : Bool) : ℕ :=
  if s.interswitch u v then s.ahead l right - s.rclamped q else s.ahead l right

def backLeft (u : N) (l : L) (v : N) (right : Bool) : ℕ :=
  if s.interswitch u v then s.back l right - s.lclamped q else s.back l right

/-- A link between two switches has room for the load in the direction it is taken, and a link that is no end
of the path leads to a switch. -/
structure HasRoom (u : N) (l : L) (v : N) (right : Bool) : Prop where
  inner : s.infrastructure v ∨ v = q.ends.node2
  room : s.interswitch u v → s.rclamped q ≤ s.ahead l right ∧ s.lclamped q ≤ s.back l right

/-- The cost of a link between two switches; links with more left cost more. -/
def hopCost (u : N) (l : L) (v : N) (right : Bool) : ℤ :=
  if s.interswitch u v then
    (s.link q.ulink).cost + ((s.aheadLeft q u l v right + s.backLeft q u l v right) / 2 : ℕ)
  else 0

/-! ### Values that fit into an `int` -/

/-- The loads and what is left of the links fit into an `int`. -/
structure Small (ulink : L) : Prop where
  rload : (s.link ulink).rload < 2 ^ 31
  lload : (s.link ulink).lload < 2 ^ 31
  rcap : ∀ l, (s.link l).potentialRcap < 2 ^ 31
  lcap : ∀ l, (s.link l).potentialLcap < 2 ^ 31

theorem toSigned_eq {n : ℕ} (h : n < 2 ^ 31) : toSigned n = n := if_pos h

theorem toUnsigned_eq {n : ℕ} (h : n < 2 ^ 31) : toUnsigned n = n := by
  unfold toUnsigned
  omega

variable {s q}

theorem Small.rloadOf (h : s.Small q.ulink) : s.rloadOf q = s.rclamped q := by
  rw [Scheduling.rloadOf, toSigned_eq h.rload, rclamped]
  omega

theorem Small.lloadOf (h : s.Small q.ulink) : s.lloadOf q = s.lclamped q := by
  rw [Scheduling.lloadOf, toSigned_eq h.lload, lclamped]
  omega

theorem Small.ahead (h : s.Small q.ulink) (l : L) (right : Bool) : s.ahead l right < 2 ^ 31 := by
  cases right
  · exact h.lcap l
  · exact h.rcap l

theorem Small.back (h : s.Small q.ulink) (l : L) (right : Bool) : s.back l right < 2 ^ 31 := by
  cases right
  · exact h.rcap l
  · exact h.lcap l

/-! ### Ends and costs of a link -/

variable {l : L} {v : N} {right : Bool}

theorem Leads.ends {leaves : ℕ → Prop} {u : N} (h : s.Leads leaves u l v right) :
    (s.link l).node1 = u ∧ (s.link l).node2 = v ∨ (s.link l).node2 = u ∧ (s.link l).node1 = v := by
  cases right with
  | true => exact .inl ⟨h.1.1, h.2⟩
  | false => exact .inr ⟨h.2.1.1, h.2.2⟩

theorem Leads.joins {leaves leaves' : ℕ → Prop} {u u' v' : N} {right' : Bool} (h : s.Leads leaves u l v right)
    (h' : s.Leads leaves' u' l v' right') : v' = v ∨ v' = u := by
  obtain ⟨h1, h2⟩ | ⟨h1, h2⟩ := h.ends <;> obtain ⟨h1', h2'⟩ | ⟨h1', h2'⟩ := h'.ends
  · exact .inl (h2'.symm.trans h2)
  · exact .inr (h2'.symm.trans h1)
  · exact .inr (h2'.symm.trans h1)
  · exact .inl (h2'.symm.trans h2)

variable [DecidableEq N] {p : LinkPath N L}

/-- The ports by which a path may go on. -/
def leavesBy (s : Scheduling N L) (q : PathQuery N L) (p : LinkPath N L) (port : ℕ) : Prop :=
  p.sink ≠ q.ends.node1 ∨ p.sinkPort < 0 ∨ p.sinkPort = port ∨ (s.node p.sink).hasVport

theorem otherEnd_eq_some {port : ℤ} (h : s.otherEnd q p l = some (v, port, right)) :
    s.Leads (s.leavesBy q p) p.sink l v right ∧
      port = if s.infrastructure v then -1 else (s.portAt l right : ℤ) := by
  simp only [otherEnd] at h
  split at h
  · next hright =>
    cases h
    exact ⟨⟨hright, rfl⟩, rfl⟩
  · next hright =>
    split at h
    · next hleft =>
      cases h
      exact ⟨⟨hright, hleft, rfl⟩, rfl⟩
    · cases h

theorem otherEnd_of_leads (h : s.Leads (s.leavesBy q p) p.sink l v right) :
    s.otherEnd q p l = some (v, if s.infrastructure v then -1 else (s.portAt l right : ℤ), right) := by
  simp only [otherEnd]
  cases right with
  | true =>
    obtain ⟨hright, rfl⟩ := h
    exact if_pos hright
  | false =>
    obtain ⟨hright, hleft, rfl⟩ := h
    exact (if_neg hright).trans (if_pos hleft)

/-! ### Conditions on a link -/

variable (s q)

/-- Further conditions: the switches have nothing of the subnet yet, the path comes to the port of its end, and
virtual ports have the capacity that the link asks for. -/
structure Permitted (u : N) (l : L) (v : N) (right : Bool) : Prop where
  free : s.interswitch u v → s.switchTaken q u v = false
  port : s.infrastructure v ∨ (s.portAt l right : ℤ) = q.ends.node2Port ∨ (s.node q.ends.node2).hasVport
  atSource : u = q.ends.node1 → (s.node q.ends.node1).hasVport →
    (s.link q.ulink).node1Capacity ≤ s.aheadLeft q u l v right
  atSink : v = q.ends.node2 → (s.node q.ends.node2).hasVport →
    (s.link q.ulink).node2Capacity ≤ s.backLeft q u l v right

def Hop (leaves : ℕ → Prop) (u : N) (l : L) (v : N) (d : ℤ) : Prop :=
  ∃ right, s.Leads leaves u l v right ∧ s.HasRoom q u l v right ∧ s.Permitted q u l v right ∧
    d = s.hopCost q u l v right

/-- The ports by which the path may leave the source. -/
def sourcePort (port : ℕ) : Prop :=
  q.ends.node1Port < 0 ∨ q.ends.node1Port = port ∨ (s.node q.ends.node1).hasVport

def FirstHop (l : L) (v : N) (d : ℤ) : Prop :=
  l ∈ (s.node q.ends.node1).links ∧ s.Hop q (s.sourcePort q) q.ends.node1 l v d

def InnerHop (u : N) (l : L) (v : N) (d : ℤ) : Prop :=
  s.infrastructure u ∧ l ∈ (s.node u).links ∧ s.Hop q (fun _ => True) u l v d

/-- The links lead from the source to a node at that cost, and the nodes between are switches. -/
def Path : List L → ℤ → N → Prop := Walk (s.FirstHop q) (s.InnerHop q)

/-! ### One link more -/

variable {s q} {seen : List N} {r : LinkPath N L} {d : ℤ}

/-- A link to a node that has not been seen makes the path longer if it can be taken. -/
theorem extendPath_iff (hs : s.Small q.ulink) (hlead : s.Leads (s.leavesBy q p) p.sink l v right) (hv : v ∉ seen) :
    s.extendPath q seen p l = some r ↔
      (s.HasRoom q p.sink l v right ∧ s.Permitted q p.sink l v right) ∧
        r = {
          path := p.path ++ [l]
          sink := v
          cost := p.cost + s.hopCost q p.sink l v right
          sinkPort := if s.infrastructure v then -1 else (s.portAt l right : ℤ) } := by
  have hahead : toSigned (if right then (s.link l).potentialRcap else (s.link l).potentialLcap) =
      (s.ahead l right : ℤ) := toSigned_eq (hs.ahead l right)
  have hback : toSigned (if right then (s.link l).potentialLcap else (s.link l).potentialRcap) =
      (s.back l right : ℤ) := toSigned_eq (hs.back l right)
  have htarget : (v ∉ seen ∧ s.infrastructure v = true) ∨ (v = q.ends.node2 ∧
      ((if s.infrastructure v then -1 else (s.portAt l right : ℤ)) = q.ends.node2Port ∨
        (s.node q.ends.node2).hasVport = true)) ↔
      (s.infrastructure v ∨ v = q.ends.node2) ∧
        (s.infrastructure v ∨ (s.portAt l right : ℤ) = q.ends.node2Port ∨ (s.node q.ends.node2).hasVport) := by
    by_cases hi : s.infrastructure v = true
    · simp [hi, hv]
    · simp [hi]
  have hinter : (s.infrastructure p.sink && s.infrastructure v) = s.interswitch p.sink v := rfl
  have hopen : (s.interswitch p.sink v && (decide ((s.ahead l right : ℤ) < s.rclamped q) ||
      decide ((s.back l right : ℤ) < s.lclamped q) || s.switchTaken q p.sink v)) = false ↔
      (s.interswitch p.sink v → s.rclamped q ≤ s.ahead l right ∧ s.lclamped q ≤ s.back l right) ∧
        (s.interswitch p.sink v → s.switchTaken q p.sink v = false) := by
    cases s.interswitch p.sink v with
    | false => simp
    | true => simp [and_assoc]
  rw [extendPath, otherEnd_of_leads hlead]
  simp only [hahead, hback, hs.rloadOf, hs.lloadOf, hinter]
  by_cases ht : (s.infrastructure v ∨ v = q.ends.node2) ∧
      (s.infrastructure v ∨ (s.portAt l right : ℤ) = q.ends.node2Port ∨ (s.node q.ends.node2).hasVport)
  swap
  · rw [if_neg fun h => ht (htarget.mp h)]
    exact ⟨nofun, fun h => absurd ⟨h.1.1.inner, h.1.2.port⟩ ht⟩
  rw [if_pos (htarget.mpr ht)]
  by_cases hroom : (s.interswitch p.sink v → s.rclamped q ≤ s.ahead l right ∧ s.lclamped q ≤ s.back l right) ∧
      (s.interswitch p.sink v → s.switchTaken q p.sink v = false)
  swap
  · rw [if_pos (Bool.of_not_eq_false fun h => hroom (hopen.mp h))]
    exact ⟨nofun, fun h => absurd ⟨h.1.1.room, h.1.2.free⟩ hroom⟩
  rw [if_neg (Bool.eq_false_iff.mp (hopen.mpr hroom))]
  have haleft : (if s.interswitch p.sink v = true then (s.ahead l right : ℤ) - s.rclamped q else s.ahead l right) =
      (s.aheadLeft q p.sink l v right : ℤ) := by
    rw [aheadLeft]
    split
    · next hi => rw [Nat.cast_sub (hroom.1 hi).1]
    · rfl
  have hbleft : (if s.interswitch p.sink v = true then (s.back l right : ℤ) - s.lclamped q else s.back l right) =
      (s.backLeft q p.sink l v right : ℤ) := by
    rw [backLeft]
    split
    · next hi => rw [Nat.cast_sub (hroom.1 hi).2]
    · rfl
  have hcost : (if s.interswitch p.sink v = true then
      p.cost + ((s.link q.ulink).cost +
        ((s.aheadLeft q p.sink l v right : ℤ) + s.backLeft q p.sink l v right) / 2) else p.cost) =
      p.cost + s.hopCost q p.sink l v right := by
    rw [hopCost]
    split
    · omega
    · rw [add_zero]
  have hasmall : s.aheadLeft q p.sink l v right < 2 ^ 31 := by
    refine lt_of_le_of_lt ?_ (hs.ahead l right)
    rw [aheadLeft]
    split
    · exact Nat.sub_le _ _
    · exact le_refl _
  have hbsmall : s.backLeft q p.sink l v right < 2 ^ 31 := by
    refine lt_of_le_of_lt ?_ (hs.back l right)
    rw [backLeft]
    split
    · exact Nat.sub_le _ _
    · exact le_refl _
  rw [haleft, hbleft, hcost, toUnsigned_eq hasmall, toUnsigned_eq hbsmall]
  by_cases hsrc : p.sink = q.ends.node1 ∧ (s.node q.ends.node1).hasVport ∧
      s.aheadLeft q p.sink l v right < (s.link q.ulink).node1Capacity
  · rw [if_pos hsrc]
    exact ⟨nofun, fun h => absurd (h.1.2.atSource hsrc.1 hsrc.2.1) (not_le.mpr hsrc.2.2)⟩
  rw [if_neg hsrc]
  by_cases hsink : v = q.ends.node2 ∧ (s.node q.ends.node2).hasVport ∧
      s.backLeft q p.sink l v right < (s.link q.ulink).node2Capacity
  · rw [if_pos hsink]
    exact ⟨nofun, fun h => absurd (h.1.2.atSink hsink.1 hsink.2.1) (not_le.mpr hsink.2.2)⟩
  rw [if_neg hsink]
  refine ⟨fun h => ⟨⟨⟨ht.1, hroom.1⟩, hroom.2, ht.2, fun hu hp => ?_, fun hu hp => ?_⟩, ?_⟩, fun h => ?_⟩
  · exact not_lt.mp fun hlt => hsrc ⟨hu, hp, hlt⟩
  · exact not_lt.mp fun hlt => hsink ⟨hu, hp, hlt⟩
  · cases h
    rfl
  · rw [h.2]

/-- A longer path goes to a node that has not been seen, as long as the sink has not. -/
theorem hop_of_extendPath (hs : s.Small q.ulink) (hsink : q.ends.node2 ∉ seen) (h : s.extendPath q seen p l = some r) :
    ∃ d, s.Hop q (s.leavesBy q p) p.sink l r.sink d ∧ r.cost = p.cost + d ∧ r.path = p.path ++ [l] ∧
      r.sink ∉ seen ∧ (s.infrastructure r.sink → r.sinkPort < 0) := by
  have hother : ∃ v port right, s.otherEnd q p l = some (v, port, right) ∧ v ∉ seen := by
    rw [extendPath] at h
    split at h
    · cases h
    · next v port right ho =>
      refine ⟨v, port, right, ho, ?_⟩
      simp only at h
      split at h
      · next ht =>
        obtain ⟨hv, -⟩ | ⟨rfl, -⟩ := ht
        · exact hv
        · exact hsink
      · cases h
  obtain ⟨v, port, right, ho, hv⟩ := hother
  have hlead := (otherEnd_eq_some ho).1
  obtain ⟨⟨hroom, hperm⟩, rfl⟩ := (extendPath_iff hs hlead hv).mp h
  refine ⟨_, ⟨right, hlead, hroom, hperm, rfl⟩, rfl, rfl, hv, fun hi => ?_⟩
  rw [if_pos hi]
  exact show (-1 : ℤ) < 0 by decide

theorem extendPath_of_hop (hs : s.Small q.ulink) (h : s.Hop q (s.leavesBy q p) p.sink l v d) (hv : v ∉ seen) :
    ∃ r, s.extendPath q seen p l = some r ∧ r.sink = v ∧ r.cost = p.cost + d := by
  obtain ⟨right, hlead, hroom, hperm, rfl⟩ := h
  exact ⟨_, (extendPath_iff hs hlead hv).mpr ⟨⟨hroom, hperm⟩, rfl⟩, rfl, rfl⟩

/-- The paths that a path is extended to. -/
def longerPaths (s : Scheduling N L) (q : PathQuery N L) (seen : List N) (p : LinkPath N L) : List (LinkPath N L) :=
  (s.node p.sink).links.filterMap (s.extendPath q seen p)

/-- A level takes the longer paths of all its paths if none of them goes to a node of the level. -/
theorem expandLevel_eq {ps : List (LinkPath N L)} (ys : List (LinkPath N L))
    (h : ps.Pairwise fun p p' => ∀ r ∈ s.longerPaths q seen p, r.sink ≠ p'.sink) :
    s.expandLevel q seen ps.length (ps ++ ys) = (ps.flatMap (s.longerPaths q seen)).foldl addPath ys := by
  induction ps generalizing ys with
  | nil => rfl
  | cons p ps ih =>
    obtain ⟨hp, hps⟩ := List.pairwise_cons.mp h
    have hkeys : ∀ r ∈ s.longerPaths q seen p, r.sink ∉ ps.map LinkPath.sink := by
      intro r hr hmem
      obtain ⟨p', hp', he⟩ := List.mem_map.mp hmem
      exact hp p' hp' r hr he.symm
    have hexpand : s.expandPath q seen (ps ++ ys) p = ps ++ (s.longerPaths q seen p).foldl addPath ys :=
      offers_append hkeys ys
    rw [List.length_cons, List.cons_append, expandLevel, hexpand, ih _ hps, List.flatMap_cons, List.foldl_append]

/-- What the paths of a level say about the walks with one link more. -/
structure Frontier (s : Scheduling N L) (q : PathQuery N L) (k : ℕ) (seen : List N) (ps : List (LinkPath N L)) :
    Prop where
  longer : ∀ p ∈ ps, ∀ l ∈ (s.node p.sink).links, ∀ v d, s.Hop q (s.leavesBy q p) p.sink l v d →
    s.Path q (p.path ++ [l]) (p.cost + d) v ∧ p.path.length = k
  cover : ∀ ls c t, s.Path q ls c t → ls.length = k + 1 → Walk.Least (s.FirstHop q) (s.InnerHop q) (k + 1) t →
    ∃ p ∈ ps, ∃ l ∈ (s.node p.sink).links, ∃ d, s.Hop q (s.leavesBy q p) p.sink l t d ∧ p.cost + d ≤ c
  old : ∀ t ∈ seen, t ≠ q.ends.node2 ∧ ∃ ls c, s.Path q ls c t ∧ ls.length ≤ k
  apart : ∀ p ∈ ps.tail, p.sink ∈ seen
  nodup : seen.Nodup
  later : Walk.Least (s.FirstHop q) (s.InnerHop q) (k + 1) q.ends.node2

/-- The paths of the next level. -/
structure Level (s : Scheduling N L) (q : PathQuery N L) (k : ℕ) (seen : List N) (ps : List (LinkPath N L)) :
    Prop where
  path : ∀ p ∈ ps, s.Path q p.path p.cost p.sink ∧ p.path.length = k
  inner : ∀ p ∈ ps, p.sink ≠ q.ends.node2 → s.infrastructure p.sink ∧ p.sinkPort < 0
  fresh : ∀ p ∈ ps, p.sink ∉ seen
  nodup : (ps.map LinkPath.sink).Nodup
  cover : ∀ ls c t, s.Path q ls c t → ls.length = k → Walk.Least (s.FirstHop q) (s.InnerHop q) k t →
    ∃ p ∈ ps, p.sink = t ∧ p.cost ≤ c

theorem Frontier.level {k : ℕ} {ps : List (LinkPath N L)} (hs : s.Small q.ulink) (h : s.Frontier q k seen ps) :
    s.Level q (k + 1) seen (s.expandLevel q seen ps.length ps) := by
  have hsink : q.ends.node2 ∉ seen := fun hmem => (h.old _ hmem).1 rfl
  have hlong : ∀ p, ∀ r ∈ s.longerPaths q seen p, ∃ l ∈ (s.node p.sink).links, s.extendPath q seen p l = some r :=
    fun p r hr => List.mem_filterMap.mp hr
  have hfresh : ∀ p, ∀ r ∈ s.longerPaths q seen p, r.sink ∉ seen := by
    intro p r hr
    obtain ⟨l, -, hl⟩ := hlong p r hr
    obtain ⟨d, -, -, -, hr, -⟩ := hop_of_extendPath hs hsink hl
    exact hr
  have hapart : ps.Pairwise fun p p' => ∀ r ∈ s.longerPaths q seen p, r.sink ≠ p'.sink := by
    have hseen : ∀ p, ∀ p' ∈ ps.tail, ∀ r ∈ s.longerPaths q seen p, r.sink ≠ p'.sink := by
      intro p p' hp' r hr he
      have hmem := h.apart p' hp'
      rw [← he] at hmem
      exact hfresh p r hr hmem
    cases ps with
    | nil => exact List.Pairwise.nil
    | cons p ps =>
      refine List.pairwise_cons.mpr ⟨fun p' hp' => hseen p p' hp', ?_⟩
      exact List.pairwise_of_forall_mem_list fun p₁ _ p₂ hp₂ => hseen p₁ p₂ hp₂
  have heq := expandLevel_eq [] hapart
  rw [List.append_nil] at heq
  rw [heq]
  -- every path of the new level is a path of the old one with a link more
  have hfrom : ∀ r ∈ (ps.flatMap (s.longerPaths q seen)).foldl addPath [], ∃ p ∈ ps, r ∈ s.longerPaths q seen p := by
    intro r hr
    obtain hr | hr := mem_of_mem_offers hr
    · cases hr
    · exact List.mem_flatMap.mp hr
  refine ⟨fun r hr => ?_, fun r hr hne => ?_, fun r hr => ?_, nodup_offers List.nodup_nil,
    fun ls c t hw hlen hleast => ?_⟩
  · obtain ⟨p, hp, hr⟩ := hfrom r hr
    obtain ⟨l, hl, hext⟩ := hlong p r hr
    obtain ⟨d, hhop, hcost, hpath, -, -⟩ := hop_of_extendPath hs hsink hext
    obtain ⟨hw, hlen⟩ := h.longer p hp l hl _ _ hhop
    rw [hpath, hcost]
    exact ⟨hw, by rw [List.length_append, hlen]; rfl⟩
  · obtain ⟨p, hp, hr⟩ := hfrom r hr
    obtain ⟨l, hl, hext⟩ := hlong p r hr
    obtain ⟨d, ⟨right, -, hroom, -, -⟩, -, -, -, hport⟩ := hop_of_extendPath hs hsink hext
    have hi := hroom.inner.resolve_right hne
    exact ⟨hi, hport hi⟩
  · obtain ⟨p, -, hr⟩ := hfrom r hr
    exact hfresh p r hr
  · have ht : t ∉ seen := by
      intro hmem
      obtain ⟨-, ms, b, hm, hle⟩ := h.old t hmem
      exact absurd (hleast ms b hm) (by omega)
    obtain ⟨p, hp, l, hl, d, hhop, hle⟩ := h.cover ls c t hw hlen hleast
    obtain ⟨r, hext, hsink', hcost⟩ := extendPath_of_hop hs hhop ht
    have hr : r ∈ ps.flatMap (s.longerPaths q seen) :=
      List.mem_flatMap.mpr ⟨p, hp, List.mem_filterMap.mpr ⟨l, hl, hext⟩⟩
    obtain ⟨r', hr', hkey, hle'⟩ := exists_le_of_offers LinkPath.sink LinkPath.cost hr []
    exact ⟨r', hr', hkey.trans hsink', le_trans hle' (by rw [hcost]; exact hle)⟩

/-- A walk to the sink with the least number of links, and a cheapest one of those. -/
structure IsCheapest (s : Scheduling N L) (q : PathQuery N L) (path : List L) (cost : ℤ) : Prop where
  walk : s.Path q path cost q.ends.node2
  hops : ∀ ls c, s.Path q ls c q.ends.node2 → path.length ≤ ls.length
  cheapest : ∀ ls c, s.Path q ls c q.ends.node2 → ls.length = path.length → cost ≤ c

/-- A switch that may be left by any port. -/
def AnyPort (s : Scheduling N L) (ends : PotentialPath N L) : Prop :=
  s.infrastructure ends.node1 → ends.node1Port < 0 ∨ (s.node ends.node1).hasVport

theorem IsCheapest.nodup (hne : q.ends.node1 ≠ q.ends.node2) (hport : s.AnyPort q.ends) {path : List L} {cost : ℤ}
    (h : s.IsCheapest q path cost) : path.Nodup := by
  refine Walk.nodup (s := q.ends.node1) (fun l v d he => ?_) (fun l u v d u' v' d' he he' => ?_)
    (fun l v d u' v' d' hf he => ?_) hne.symm h.walk h.hops
  · obtain ⟨hi, hl, hhop⟩ := he
    have hany : s.sourcePort q = fun _ => True := by
      funext port
      obtain hp | hp := hport hi
      · exact eq_true (.inl hp)
      · exact eq_true (.inr (.inr hp))
    refine ⟨hl, ?_⟩
    rw [hany]
    exact hhop
  · obtain ⟨-, -, right, hlead, -⟩ := he
    obtain ⟨-, -, right', hlead', -⟩ := he'
    exact hlead.joins hlead'
  · obtain ⟨-, right, hlead, -⟩ := hf
    obtain ⟨-, -, right', hlead', -⟩ := he
    exact hlead.joins hlead'

/-! ### The subnet -/

/-- As many nodes are new as are pending in addition. -/
structure Grows (b b' : SubnetSearch N L) : Prop where
  nodup : b.nodes.Nodup → b'.nodes.Nodup
  pending : b.pending.length ≤ b'.pending.length
  slack : b'.pending.length + b.nodes.length ≤ b.pending.length + b'.nodes.length

omit [DecidableEq N] in
theorem Grows.refl (b : SubnetSearch N L) : Grows b b := ⟨id, Nat.le_refl _, Nat.le_refl _⟩

omit [DecidableEq N] in
theorem Grows.foldl {f : SubnetSearch N L → L → SubnetSearch N L} (h : ∀ b l, Grows b (f b l)) (ls : List L)
    (b : SubnetSearch N L) : Grows b (ls.foldl f b) := by
  induction ls generalizing b with
  | nil => exact .refl b
  | cons l ls ih =>
    have hl := h b l
    have hls := ih (f b l)
    refine ⟨hls.nodup ∘ hl.nodup, Nat.le_trans hl.pending hls.pending, ?_⟩
    have hslack := hls.slack
    have hslack' := hl.slack
    rw [List.foldl_cons]
    omega

variable [DecidableEq L]

theorem grows_seeNode (s : Scheduling N L) (b : SubnetSearch N L) (n : N) (l : L) : Grows b (s.seeNode b n l) := by
  unfold seeNode
  split
  · exact .refl b
  · next hn =>
    refine ⟨fun h => h.append (List.nodup_singleton n) (List.disjoint_singleton.mpr hn), ?_, ?_⟩
    · show b.pending.length ≤ List.length (if _ then _ else _)
      split
      · rw [List.length_append]
        exact Nat.le_add_right _ _
      · exact Nat.le_refl _
    · show List.length (if _ then _ else _) + b.nodes.length ≤ b.pending.length + (b.nodes ++ [n]).length
      rw [List.length_append]
      split
      · rw [List.length_append]
        show b.pending.length + 1 + b.nodes.length ≤ b.pending.length + (b.nodes.length + 1)
        omega
      · exact Nat.add_le_add_left (Nat.le_add_right _ _) _

theorem subnetLoop_isSome [Fintype N] {rounds : ℕ} {b : SubnetSearch N L} (hnodup : b.nodes.Nodup)
    (hrounds : b.pending.length + Fintype.card N + 1 ≤ rounds + b.nodes.length) :
    (s.subnetLoop rounds b).isSome := by
  induction rounds generalizing b with
  | zero =>
    have hcard := hnodup.length_le_card
    omega
  | succ rounds ih =>
    rw [subnetLoop]
    split
    · rfl
    · next p rest hp =>
      have hgrows : Grows b (s.subnetVisit b p) := Grows.foldl (fun b l => grows_seeNode s b _ l) _ b
      refine ih (hgrows.nodup hnodup) ?_
      have hpending := hgrows.pending
      have hslack := hgrows.slack
      have hpos : b.pending.length = rest.length + 1 := by rw [hp, List.length_cons]
      show (s.subnetVisit b p).pending.tail.length + _ + 1 ≤ rounds + (s.subnetVisit b p).nodes.length
      rw [List.length_tail]
      omega

theorem getSubnet_isSome [Fintype N] {rounds : ℕ} (hrounds : Fintype.card N + 1 ≤ rounds) (source : N) (port : ℕ) :
    (s.getSubnet rounds source port).isSome := by
  rw [getSubnet]
  by_cases hv : s.vgige source = true
  · rw [subnetStart, if_pos hv]
    refine subnetLoop_isSome (List.nodup_singleton _) ?_
    show 1 + _ + 1 ≤ rounds + 1
    omega
  · have hgrows : Grows { nodes := [source] } (s.subnetStart source port) := by
      rw [subnetStart, if_neg hv]
      refine Grows.foldl (fun b l => ?_) _ _
      simp only
      split
      · exact grows_seeNode s b _ l
      · split
        · exact grows_seeNode s b _ l
        · exact .refl b
    refine subnetLoop_isSome (hgrows.nodup (List.nodup_singleton _)) ?_
    have hslack : (s.subnetStart source port).pending.length + 1 ≤ 0 + (s.subnetStart source port).nodes.length :=
      hgrows.slack
    omega

/-- A negative cost without a path, or a cheapest one of the paths with the least number of links. -/
def Answers (s : Scheduling N L) (q : PathQuery N L) (a : CheapestPath L) : Prop :=
  a.cost < 0 ∧ (∀ ls c, ¬s.Path q ls c q.ends.node2) ∨
    0 ≤ a.cost ∧ s.IsCheapest q a.mappedPath a.cost ∧
      (q.ends.node1 ≠ q.ends.node2 → s.AnyPort q.ends → a.mappedPath.Nodup)

local instance neZero_six : NeZero 6 := ⟨by decide⟩

local instance neZero_four : NeZero 4 := ⟨by decide⟩

local instance neZero_five : NeZero 5 := ⟨by decide⟩

end Scheduling

end OnlDaemons.Onldb
