import OnlDaemons.Onldb.LessRoom
import OnlDaemons.Onldb.SplitVgige

/-!
# The path from a vgige to a cluster

The path to a cluster is looked for with the load that the cluster has, and the base topology as it is without the
request. If there is none, then there is none later either, because the other links have no more room and the load is
not less.

## Main definitions

- `Scheduling.Later` — what happens to the links in a call
- `Scheduling.Blocked` — there is no path to a cluster

## Main results

- `Blocked.later`
- `exists_splitPath`
-/

namespace OnlDaemons.Onldb

namespace Scheduling

variable {N L : Type} {q : SplitQuery N L} {s s' t : Scheduling N L} {load load' : ℤ}

/-! ### What happens to the base topology -/

/-- Apart from the new link, the links have changed in their room only, and those outside the base topology have
less. -/
structure Later (q : SplitQuery N L) (s s' : Scheduling N L) : Prop where
  node : s'.node = s.node
  link : ∀ l ≠ q.lnk, s'.link l = { s.link l with
    potentialRcap := (s'.link l).potentialRcap
    potentialLcap := (s'.link l).potentialLcap }
  rcap : ∀ l ≠ q.lnk, l ∉ q.base → (s'.link l).potentialRcap ≤ (s.link l).potentialRcap
  lcap : ∀ l ≠ q.lnk, l ∉ q.base → (s'.link l).potentialLcap ≤ (s.link l).potentialLcap

theorem Later.refl (q : SplitQuery N L) (s : Scheduling N L) : Later q s s :=
  ⟨rfl, fun _ _ => rfl, fun _ _ _ => Nat.le_refl _, fun _ _ _ => Nat.le_refl _⟩

theorem Later.trans (h : Later q s s') (h' : Later q s' t) : Later q s t := by
  refine ⟨h'.node.trans h.node, fun l hl => ?_, fun l hl hb => (h'.rcap l hl hb).trans (h.rcap l hl hb),
    fun l hl hb => (h'.lcap l hl hb).trans (h.lcap l hl hb)⟩
  have hlink := h'.link l hl
  rw [h.link l hl] at hlink
  exact hlink

theorem Reserved.later (h : Reserved s s') : Later q s s' :=
  ⟨h.node, fun l _ => h.link l, fun l _ _ => h.rcap l, fun l _ _ => h.lcap l⟩

/-- A load that a cluster may have. -/
def LoadOk (load : ℤ) : Prop := 0 ≤ load ∧ load ≤ MAX_INTERCLUSTER_CAPACITY

theorem LoadOk.toUnsigned (h : LoadOk load) : (toUnsigned load : ℤ) = load := by
  have hmax : load ≤ 10000 := h.2
  have hpos := h.1
  unfold Onldb.toUnsigned
  omega

variable [DecidableEq L]

/-- The link to the vgige itself, with the load of a cluster. -/
def splitLink (q : SplitQuery N L) (load : ℤ) : SchedLink N L := {
  node1 := q.root
  node2 := q.root
  rload := q.rload
  lload := toUnsigned load
  cost := calculateEdgeCost (toSigned q.rload) (toSigned (toUnsigned load)) }

/-- What is left of a link of the base topology. -/
def leftOf (x : SchedLink N L) : SchedLink N L :=
  { x with
    potentialLcap := if x.lload < x.capacity then x.capacity - x.lload else 0
    potentialRcap := if x.rload < x.capacity then x.capacity - x.rload else 0 }

theorem splitSearch_lnk (hlnk : q.lnk ∉ q.base) : (s.splitSearch q load).link q.lnk = splitLink q load := by
  show (if q.lnk ∈ q.base then _ else _) = _
  rw [if_neg hlnk]
  exact Function.update_self _ _ _

theorem splitSearch_ne {l : L} (hl : l ≠ q.lnk) :
    (s.splitSearch q load).link l = if l ∈ q.base then leftOf (s.link l) else s.link l := by
  have hset : ∀ x, (s.setLink q.lnk x).link l = s.link l := fun x => Function.update_of_ne hl _ _
  show (if l ∈ q.base then leftOf _ else _) = _
  rw [hset]

/-- A greater load, later on. -/
theorem Later.tighter (h : Later q s s') (hlnk : q.lnk ∉ q.base) (hload : LoadOk load) (hload' : LoadOk load')
    (hle : load ≤ load') : Tighter q.lnk (s.splitSearch q load) (s'.splitSearch q load') := by
  have hleft : ∀ l ≠ q.lnk, leftOf (s'.link l) = leftOf (s.link l) := fun l hl => by
    rw [h.link l hl]
    rfl
  have htwo : toUnsigned load ≤ toUnsigned load' := by
    have h1 := hload.toUnsigned
    have h2 := hload'.toUnsigned
    omega
  have hother : ∀ l ≠ q.lnk, l ∈ q.base ∧ (s'.splitSearch q load').link l = (s.splitSearch q load).link l ∨
      l ∉ q.base ∧ (s'.splitSearch q load').link l = s'.link l ∧ (s.splitSearch q load).link l = s.link l := by
    intro l hl
    rw [splitSearch_ne hl, splitSearch_ne hl]
    by_cases hb : l ∈ q.base
    · rw [if_pos hb, if_pos hb]
      exact .inl ⟨hb, hleft l hl⟩
    · rw [if_neg hb, if_neg hb]
      exact .inr ⟨hb, rfl, rfl⟩
  refine ⟨h.node, fun l => ?_, fun l => ?_, fun l => ?_, ?_⟩
  · by_cases hl : l = q.lnk
    · rw [hl, splitSearch_lnk hlnk, splitSearch_lnk hlnk]
      rfl
    · obtain ⟨-, heq⟩ | ⟨-, heq', heq⟩ := hother l hl
      · rw [heq]
      · rw [heq', heq, h.link l hl]
  · by_cases hl : l = q.lnk
    · rw [hl, splitSearch_lnk hlnk, splitSearch_lnk hlnk]
      rfl
    · obtain ⟨-, heq⟩ | ⟨hb, heq', heq⟩ := hother l hl
      · rw [heq]
      · rw [heq', heq]
        exact h.rcap l hl hb
  · by_cases hl : l = q.lnk
    · rw [hl, splitSearch_lnk hlnk, splitSearch_lnk hlnk]
      rfl
    · obtain ⟨-, heq⟩ | ⟨hb, heq', heq⟩ := hother l hl
      · rw [heq]
      · rw [heq', heq]
        exact h.lcap l hl hb
  · rw [splitSearch_lnk hlnk, splitSearch_lnk hlnk]
    exact htwo

theorem calculateEdgeCost_nonneg {r l : ℤ} (hr : 0 ≤ r) (hl : 0 ≤ l) : 0 ≤ calculateEdgeCost r l := by
  have hmin : ∀ x : ℤ, 0 ≤ x → 0 ≤ (min x MAX_INTERCLUSTER_CAPACITY).tdiv 1000 := fun x hx =>
    Int.tdiv_nonneg (le_min hx (by decide)) (by decide)
  have hsum := add_nonneg (hmin r hr) (hmin l hl)
  exact Int.tdiv_nonneg (add_nonneg (mul_nonneg (by decide) hsum) (Int.natCast_nonneg _)) (by decide)

theorem InRange.splitSearch (h : InRange s) (hlnk : q.lnk ∉ q.base) (hrload : q.rload ≤ MAX_INTERCLUSTER_CAPACITY)
    (hload : LoadOk load) : InRange (s.splitSearch q load) := by
  have hmax : MAX_INTERCLUSTER_CAPACITY < 2 ^ 31 := by decide
  have hl : toUnsigned load < 2 ^ 31 := by
    have h1 := hload.toUnsigned
    have h2 := hload.2
    omega
  have hr := hrload.trans_lt hmax
  have hlink : ∀ l, (s.splitSearch q load).link l = splitLink q load ∨
      (s.splitSearch q load).link l = leftOf (s.link l) ∨ (s.splitSearch q load).link l = s.link l := by
    intro l
    by_cases hl : l = q.lnk
    · rw [hl]
      exact .inl (splitSearch_lnk hlnk)
    · rw [splitSearch_ne hl]
      by_cases hb : l ∈ q.base
      · exact .inr (.inl (if_pos hb))
      · exact .inr (.inr (if_neg hb))
  have hleft : ∀ l, (leftOf (s.link l)).potentialLcap < 2 ^ 31 ∧ (leftOf (s.link l)).potentialRcap < 2 ^ 31 := by
    intro l
    have hcap := h.capacity l
    unfold leftOf
    constructor <;> dsimp only <;> split <;> omega
  have hcaps : ∀ l, ((s.splitSearch q load).link l).potentialRcap < 2 ^ 31 ∧
      ((s.splitSearch q load).link l).potentialLcap < 2 ^ 31 := by
    intro l
    obtain heq | heq | heq := hlink l <;> rw [heq]
    · exact ⟨show 0 < 2 ^ 31 by decide, show 0 < 2 ^ 31 by decide⟩
    · exact (hleft l).symm
    · exact ⟨(h.small l).rcap l, (h.small l).lcap l⟩
  refine ⟨fun l => ⟨?_, ?_, fun k => (hcaps k).1, fun k => (hcaps k).2⟩, fun l => ?_, fun l => ?_⟩
  · obtain heq | heq | heq := hlink l <;> rw [heq]
    exacts [hr, (h.small l).rload, (h.small l).rload]
  · obtain heq | heq | heq := hlink l <;> rw [heq]
    exacts [hl, (h.small l).lload, (h.small l).lload]
  · obtain heq | heq | heq := hlink l <;> rw [heq]
    exacts [show 0 < 2 ^ 31 by decide, h.capacity l, h.capacity l]
  · obtain heq | heq | heq := hlink l <;> rw [heq]
    · show 0 ≤ calculateEdgeCost _ _
      rw [toSigned_eq hr, toSigned_eq hl]
      exact calculateEdgeCost_nonneg (Int.natCast_nonneg _) (Int.natCast_nonneg _)
    · exact h.cost l
    · exact h.cost l

/-! ### A cluster without a path -/

variable [DecidableEq N] {rounds : ℕ} {c c' : MappingCluster N}

/-- With the load that the cluster has, there is no path from the vgige to it. -/
def Blocked (rounds : ℕ) (q : SplitQuery N L) (s : Scheduling N L) (c : MappingCluster N) : Prop :=
  (s.splitSearch q c.load).sameHost q.lnk (splitPath q c) = false ∧
    ∀ subnet, (s.splitSearch q c.load).getSubnet rounds q.root 0 = some subnet → ∀ ls d,
      ¬(s.splitSearch q c.load).Path ⟨q.lnk, splitPath q c, [], subnet⟩ ls d c.cluster

/-- With less room and a greater load, there is no path either. -/
theorem Blocked.later (h : Blocked rounds q s c) (hlater : Later q s s') (hlnk : q.lnk ∉ q.base)
    (hcluster : c'.cluster = c.cluster) (hc : LoadOk c.load) (hc' : LoadOk c'.load) (hle : c.load ≤ c'.load) :
    Blocked rounds q s' c' := by
  have hpath : splitPath q c' = splitPath q c := by
    unfold splitPath
    rw [hcluster]
  have ht := hlater.tighter hlnk hc hc' hle
  unfold Blocked
  rw [hpath, hcluster]
  refine ⟨(ht.sameHost _).trans h.1, fun subnet hsub ls d hp => ?_⟩
  obtain ⟨d', hp'⟩ := ht.path rfl hp
  exact h.2 subnet ((ht.getSubnet rounds q.root 0).symm.trans hsub) ls d' hp'

end Scheduling

end OnlDaemons.Onldb
