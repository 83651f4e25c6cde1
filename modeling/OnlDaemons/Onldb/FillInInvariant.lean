import OnlDaemons.Onldb.FillIn

/-!
# The invariant of the search

The fields that the search writes are determined by its log, and the log is a sequence of
assignments each of which was allowed when it was made. What is true of the log stays true when
the entries of one level are taken out of it, which is what the clean-up before the next try
does.

## Main definitions

- `LogOk` — what holds of the log by itself
- `Reflects` — the fields of both topologies agree with the log
- `Parts` — the subtopologies by the level at which they are assigned
-/

namespace OnlDaemons.Onldb

open Lib

/-- Links join nodes that are not clusters, and clusters are not in clusters. -/
structure Topology.Plain (t : Topology) : Prop where
  leaf : ∀ l a, t.Inc l a → (t.node a).isParent = false
  flat : ∀ p < t.nodes.length, (t.node p).isParent = true → (t.node p).parent = none

/-- The nodes assigned at each level are the connected parts of the topology. -/
structure Parts (t : Topology) (comp : ℕ → ℕ → Prop) : Prop where
  leaf : ∀ k a, comp k a → a < t.nodes.length ∧ (t.node a).isParent = false
  conn : ∀ k a b, comp k a → (comp k b ↔ Reach t.Inc a b)
  one : ∀ k k' a, comp k a → comp k' a → k = k'

/-- The reserved link joins `r` and `y` at the ports at which the user link joins `a` and
`b`. -/
def JoinsAt (t res : Topology) (l m a r b y : ℕ) : Prop :=
  ∃ o o' : Bool,
    ((t.link l).side o).node = a ∧ ((t.link l).side !o).node = b ∧
    ((res.link m).side o').node = r ∧ ((res.link m).side !o').node = y ∧
    ((t.link l).side o).port = ((res.link m).side o').port ∧
    ((t.link l).side !o).port = ((res.link m).side !o').port

structure LogOk (t res : Topology) (comp : ℕ → ℕ → Prop) (log : List (ℕ × Event)) : Prop where
  node : ∀ k a r, (k, Event.node a r) ∈ log →
    comp k a ∧ r < res.nodes.length ∧ TypeFits t res a r
  inj : ∀ k k' a b r, (k, Event.node a r) ∈ log → (k', Event.node b r) ∈ log →
    (res.node r).isParent = false → a = b
  child : ∀ k a r p, (k, Event.node a r) ∈ log → (t.node a).parent = some p →
    ∃ q, (res.node r).parent = some q ∧ (k, Event.parent p q) ∈ log
  parent : ∀ k p q, (k, Event.parent p q) ∈ log →
    ∃ a r, (k, Event.node a r) ∈ log ∧ (t.node a).parent = some p ∧ (res.node r).parent = some q
  link : ∀ k l m b y, (k, Event.link l m b y) ∈ log →
    TypeFits t res b y ∧ t.Inc l b ∧ res.Inc m y ∧
      ∃ a r, (k, Event.node a r) ∈ log ∧ JoinsAt t res l m a r b y
  link_inj : ∀ k k' l l' m b b' y y', (k, Event.link l m b y) ∈ log →
    (k', Event.link l' m b' y') ∈ log → l = l'

structure Reflects (t res : Topology) (s : Search) : Prop where
  marked : ∀ a, (t.node a).isParent = false →
    ((s.nodes a).marked = true ↔ ∃ k r, (k, Event.node a r) ∈ s.log)
  copied : ∀ k a r, (k, Event.node a r) ∈ s.log → (s.nodes a).res = r ∧
    (s.nodes a).node = (res.node r).node ∧ (s.nodes a).vmid = (res.node r).vmid
  cluster : ∀ p, (t.node p).isParent = true → (s.nodes p).marked = true →
    ((s.nodes p).level, Event.parent p (s.nodes p).res) ∈ s.log ∧
      (s.nodes p).node = (res.node (s.nodes p).res).node
  clusterMarked : ∀ k p q, (k, Event.parent p q) ∈ s.log →
    (s.nodes p).marked = true ∧ (s.nodes p).level ≤ k
  linkMarked : ∀ l, (s.links l).marked = true ↔ ∃ k m b y, (k, Event.link l m b y) ∈ s.log
  linkCopied : ∀ k l m b y, (k, Event.link l m b y) ∈ s.log →
    (s.links l).res = m ∧ (s.links l).conns = (res.link m).conns
  resNode : ∀ k a r, (k, Event.node a r) ∈ s.log → (res.node r).isParent = false →
    s.resNodes r = ⟨true, k⟩
  resLink : ∀ k l m b y, (k, Event.link l m b y) ∈ s.log → s.resLinks m = ⟨true, k⟩

/-- Taking all entries of some levels out of a log keeps it in order: an entry refers only to
entries of its own level. -/
theorem LogOk.filter {t res : Topology} {comp : ℕ → ℕ → Prop} {log : List (ℕ × Event)}
    (h : LogOk t res comp log) (keep : ℕ → Bool) :
    LogOk t res comp (log.filter (fun e => keep e.1)) := by
  have hsub : ∀ {e}, e ∈ log.filter (fun e => keep e.1) → e ∈ log ∧ keep e.1 = true :=
    fun he => List.mem_filter.mp he
  have hmem : ∀ {k : ℕ} {ev : Event}, (k, ev) ∈ log → keep k = true →
      (k, ev) ∈ log.filter (fun e => keep e.1) := fun he hk => List.mem_filter.mpr ⟨he, hk⟩
  constructor
  · exact fun k a r he => h.node k a r (hsub he).1
  · exact fun k k' a b r he he' => h.inj k k' a b r (hsub he).1 (hsub he').1
  · intro k a r p he hp
    obtain ⟨q, hq, hlog⟩ := h.child k a r p (hsub he).1 hp
    exact ⟨q, hq, hmem hlog (hsub he).2⟩
  · intro k p q he
    obtain ⟨a, r, hlog, hp, hq⟩ := h.parent k p q (hsub he).1
    exact ⟨a, r, hmem hlog (hsub he).2, hp, hq⟩
  · intro k l m b y he
    obtain ⟨hfit, hb, hy, a, r, hlog, hjoin⟩ := h.link k l m b y (hsub he).1
    exact ⟨hfit, hb, hy, a, r, hmem hlog (hsub he).2, hjoin⟩
  · exact fun k k' l l' m b b' y y' he he' =>
      h.link_inj k k' l l' m b b' y y' (hsub he).1 (hsub he').1

/-! ### Placing a node -/

namespace Search

variable {t res : Topology} {level : ℕ} {s : Search} {a r : ℕ}

theorem mem_adopt_log {p q : ℕ} {e : ℕ × Event} :
    e ∈ (s.adopt res level p q).log ↔ e ∈ s.log ∨ e = (level, Event.parent p q) := by
  unfold adopt
  split <;> simp

theorem mem_place_log {e : ℕ × Event} :
    e ∈ (s.place t res level a r).log ↔ e ∈ s.log ∨ e = (level, Event.node a r) ∨
      ∃ p q, (t.node a).parent = some p ∧ (res.node r).parent = some q ∧
        e = (level, Event.parent p q) := by
  unfold place
  split
  · rename_i p q hp hq
    rw [mem_adopt_log]
    simp [assign, hp, hq, or_assoc]
  · rename_i hnone
    have hno : ¬∃ p q, (t.node a).parent = some p ∧ (res.node r).parent = some q ∧
        e = (level, Event.parent p q) := fun ⟨p, q, hp, hq, _⟩ => hnone p q hp hq
    simp only [assign, List.mem_append, List.mem_singleton]
    tauto

theorem node_mem_place_log {k b y : ℕ} : (k, Event.node b y) ∈ (s.place t res level a r).log ↔
    (k, Event.node b y) ∈ s.log ∨ k = level ∧ b = a ∧ y = r := by
  rw [mem_place_log]
  simp

theorem link_mem_place_log {k l m b y : ℕ} :
    (k, Event.link l m b y) ∈ (s.place t res level a r).log ↔
      (k, Event.link l m b y) ∈ s.log := by
  rw [mem_place_log]
  simp

@[simp] theorem place_links : (s.place t res level a r).links = s.links := by
  unfold place
  split
  · unfold adopt
    split <;> rfl
  · rfl

@[simp] theorem place_resLinks : (s.place t res level a r).resLinks = s.resLinks := by
  unfold place
  split
  · unfold adopt
    split <;> rfl
  · rfl

/-- What the node that is placed reads afterwards. -/
theorem place_nodes_self (hne : (t.node a).parent ≠ some a) :
    (s.place t res level a r).nodes a =
      { s.nodes a with
        marked := true
        node := (res.node r).node
        acl := (res.node r).acl
        cp := (res.node r).cp
        vmid := (res.node r).vmid
        rootOnly := (res.node r).rootOnly
        res := r } := by
  unfold place
  split
  · rename_i p q hp hq
    have hpa : a ≠ p := fun h => hne (h ▸ hp)
    unfold adopt
    split <;> simp [assign, hpa]
  · simp [assign]

theorem place_nodes_of_ne {b : ℕ} (hb : b ≠ a) (hne : (t.node a).parent ≠ some b) :
    (s.place t res level a r).nodes b = s.nodes b := by
  unfold place
  split
  · rename_i p q hp hq
    have hpb : b ≠ p := fun h => hne (h ▸ hp)
    unfold adopt
    split <;> simp [assign, hpb, hb]
  · simp [assign, hb]

/-- The cluster of the node that is placed. -/
theorem place_nodes_parent {p q : ℕ} (hp : (t.node a).parent = some p)
    (hq : (res.node r).parent = some q) (hne : p ≠ a) :
    (s.place t res level a r).nodes p =
      if (s.nodes p).marked then s.nodes p
      else { s.nodes p with marked := true, node := (res.node q).node, level, res := q } := by
  unfold place
  simp only [hp, hq]
  unfold adopt
  by_cases hm : (s.nodes p).marked <;> simp [assign, hne, hm]

theorem place_resNodes {r' : ℕ} (hne : (res.node r).parent ≠ some r') :
    (s.place t res level a r).resNodes r' = if r' = r then ⟨true, level⟩ else s.resNodes r' := by
  unfold place
  split
  · rename_i p q hp hq
    have hqr : r' ≠ q := fun h => hne (h ▸ hq)
    unfold adopt
    split <;> simp [assign, hqr, Function.update_apply]
  · simp [assign, Function.update_apply]

theorem parentFits_true (h : s.parentFits t res a r = some true) {p : ℕ}
    (hp : (t.node a).parent = some p) : ∃ q, (res.node r).parent = some q := by
  unfold parentFits at h
  rw [hp] at h
  split at h
  · rename_i hnone
    cases hnone
  · cases h
  · rename_i q _ hq
    exact ⟨q, hq⟩

end Search

/-- The two topologies and the parts of the first, as the search uses them. -/
structure Setting (t res : Topology) (comp : ℕ → ℕ → Prop) : Prop where
  user : t.Wf
  reserved : res.Wf
  plain : t.Plain
  parts : Parts t comp

/-- The invariant of the search, with a bound on the levels in its log. -/
structure Inv (t res : Topology) (comp : ℕ → ℕ → Prop) (level : ℕ) (s : Search) : Prop where
  log : LogOk t res comp s.log
  fields : Reflects t res s
  bound : ∀ e ∈ s.log, e.1 ≤ level

theorem Inv.logOk_place {t res : Topology} {comp : ℕ → ℕ → Prop} {level : ℕ} {s : Search}
    {a r : ℕ} (hinv : Inv t res comp level s) (ha : comp level a) (hr : r < res.nodes.length) (hfit : TypeFits t res a r)
    (hrm : (s.resNodes r).marked = false)
    (hpf : s.parentFits t res a r = some true) :
    LogOk t res comp (s.place t res level a r).log := by
  have hold : ∀ {e}, e ∈ s.log → e ∈ (s.place t res level a r).log :=
    fun h => Search.mem_place_log.mpr (Or.inl h)
  have hself : (level, Event.node a r) ∈ (s.place t res level a r).log :=
    Search.mem_place_log.mpr (Or.inr (Or.inl rfl))
  have hparent : ∀ {k p q}, (k, Event.parent p q) ∈ (s.place t res level a r).log →
      (k, Event.parent p q) ∈ s.log ∨
        k = level ∧ (t.node a).parent = some p ∧ (res.node r).parent = some q := by
    intro k p q he
    rcases Search.mem_place_log.mp he with h | h | ⟨p', q', hp, hq, h⟩
    · exact Or.inl h
    · cases h
    · cases h
      exact Or.inr ⟨rfl, hp, hq⟩
  -- a reserved node outside clusters that some user node has is marked
  have hfree : ∀ {k b}, (k, Event.node b r) ∈ s.log → (res.node r).isParent = true := by
    intro k b he
    by_contra hleaf
    rw [hinv.fields.resNode k b r he (by simpa using hleaf)] at hrm
    cases hrm
  constructor
  · intro k b y he
    rcases Search.node_mem_place_log.mp he with h | ⟨rfl, rfl, rfl⟩
    · exact hinv.log.node k b y h
    · exact ⟨ha, hr, hfit⟩
  · intro k k' b c y he he' hleaf
    rcases Search.node_mem_place_log.mp he with h | ⟨-, hb, hy⟩ <;>
      rcases Search.node_mem_place_log.mp he' with h' | ⟨-, hc, hy'⟩
    · exact hinv.log.inj k k' b c y h h' hleaf
    · simp [hfree (hy' ▸ h), hy'] at hleaf
    · simp [hfree (hy ▸ h'), hy] at hleaf
    · rw [hb, hc]
  · intro k b y p he hp
    rcases Search.node_mem_place_log.mp he with h | ⟨rfl, rfl, rfl⟩
    · obtain ⟨q, hq, hlog⟩ := hinv.log.child k b y p h hp
      exact ⟨q, hq, hold hlog⟩
    · obtain ⟨q, hq⟩ := Search.parentFits_true hpf hp
      exact ⟨q, hq, Search.mem_place_log.mpr (Or.inr (Or.inr ⟨p, q, hp, hq, rfl⟩))⟩
  · intro k p q he
    rcases hparent he with h | ⟨rfl, hp, hq⟩
    · obtain ⟨b, y, hlog, hrest⟩ := hinv.log.parent k p q h
      exact ⟨b, y, hold hlog, hrest⟩
    · exact ⟨a, r, hself, hp, hq⟩
  · intro k l m b y he
    obtain ⟨hfit, hb, hy, c, z, hlog, hjoin⟩ := hinv.log.link k l m b y (Search.link_mem_place_log.mp he)
    exact ⟨hfit, hb, hy, c, z, hold hlog, hjoin⟩
  · exact fun k k' l l' m b b' y y' he he' =>
      hinv.log.link_inj k k' l l' m b b' y y' (Search.link_mem_place_log.mp he) (Search.link_mem_place_log.mp he')

namespace Setting

variable {t res : Topology} {comp : ℕ → ℕ → Prop} (hset : Setting t res comp)
  {level : ℕ} {s : Search} {a r : ℕ}
include hset

theorem parent_cluster {p : ℕ} (ha : comp level a) (hp : (t.node a).parent = some p) :
    (t.node p).isParent = true :=
  (hset.user.parent a (hset.parts.leaf level a ha).1 p hp).2

theorem parent_ne {b p : ℕ} (ha : comp level a) (hb : (t.node b).isParent = false)
    (hp : (t.node a).parent = some p) : b ≠ p := by
  rintro rfl
  simp [hset.parent_cluster ha hp] at hb

theorem reflects_place (hinv : Inv t res comp level s) (ha : comp level a)
    (hr : r < res.nodes.length) (ham : (s.nodes a).marked = false)
    (hrm : (s.resNodes r).marked = false) :
    Reflects t res (s.place t res level a r) := by
  have hleafa := (hset.parts.leaf level a ha).2
  have hpa : (t.node a).parent ≠ some a := fun h => hset.parent_ne ha hleafa h rfl
  -- a node outside clusters other than the one placed is as it was
  have hsame : ∀ {b}, (t.node b).isParent = false → b ≠ a →
      (s.place t res level a r).nodes b = s.nodes b := by
    intro b hb hba
    exact Search.place_nodes_of_ne hba (fun h => hset.parent_ne ha hb h rfl)
  have hfresh : ∀ {k y}, (k, Event.node a y) ∉ s.log := by
    intro k y he
    rw [(hinv.fields.marked a hleafa).mpr ⟨k, y, he⟩] at ham
    cases ham
  constructor
  · intro b hb
    by_cases hba : b = a
    · subst hba
      rw [Search.place_nodes_self hpa]
      exact ⟨fun _ => ⟨level, r, Search.node_mem_place_log.mpr (Or.inr ⟨rfl, rfl, rfl⟩)⟩, fun _ => rfl⟩
    · rw [hsame hb hba, hinv.fields.marked b hb]
      simp only [Search.node_mem_place_log, hba, false_and, and_false, or_false]
  · intro k b y he
    rcases Search.node_mem_place_log.mp he with h | ⟨rfl, rfl, rfl⟩
    · have hb := (hset.parts.leaf k b (hinv.log.node k b y h).1).2
      have hba : b ≠ a := fun h' => hfresh (h' ▸ h)
      rw [hsame hb hba]
      exact hinv.fields.copied k b y h
    · rw [Search.place_nodes_self hpa]
      exact ⟨rfl, rfl, rfl⟩
  · intro p hp hpm
    have hpa' : p ≠ a := by
      rintro rfl
      simp [hp] at hleafa
    by_cases hadopt : (t.node a).parent = some p ∧ ∃ q, (res.node r).parent = some q
    · obtain ⟨hpp, q, hq⟩ := hadopt
      rw [Search.place_nodes_parent hpp hq hpa'] at hpm ⊢
      by_cases hm : (s.nodes p).marked = true
      · simp only [hm, if_true] at hpm ⊢
        obtain ⟨hlog, hname⟩ := hinv.fields.cluster p hp hm
        exact ⟨Search.mem_place_log.mpr (Or.inl hlog), hname⟩
      · simp only [hm] at hpm ⊢
        exact ⟨Search.mem_place_log.mpr (Or.inr (Or.inr ⟨p, q, hpp, hq, rfl⟩)), rfl⟩
    · have hsamep : (s.place t res level a r).nodes p = s.nodes p := by
        by_cases hpp : (t.node a).parent = some p
        · have hnone : ∀ q, (res.node r).parent ≠ some q := fun q hq => hadopt ⟨hpp, q, hq⟩
          unfold Search.place
          split
          · rename_i _ q _ hq
            exact absurd hq (hnone q)
          · simp [Search.assign, hpa']
        · exact Search.place_nodes_of_ne hpa' hpp
      rw [hsamep] at hpm ⊢
      obtain ⟨hlog, hname⟩ := hinv.fields.cluster p hp hpm
      exact ⟨Search.mem_place_log.mpr (Or.inl hlog), hname⟩
  · intro k p q he
    have hpc : ∀ {c}, c = p → (t.node p).isParent = true → c ≠ a := by
      rintro c rfl hc rfl
      simp [hc] at hleafa
    rcases Search.mem_place_log.mp he with h | h | ⟨p', q', hp, hq, h⟩
    · obtain ⟨hm, hle⟩ := hinv.fields.clusterMarked k p q h
      obtain ⟨b, y, hb, hbp, -⟩ := hinv.log.parent k p q h
      have hcl := hset.parent_cluster (hinv.log.node k b y hb).1 hbp
      by_cases hpp : (t.node a).parent = some p
      · unfold Search.place
        split
        · rename_i p' q' hp' hq'
          obtain rfl : p' = p := by rw [hp'] at hpp; exact Option.some.inj hpp
          unfold Search.adopt
          simp [Search.assign, hpc rfl hcl, hm, hle]
        · simp [Search.assign, hpc rfl hcl, hm, hle]
      · rw [Search.place_nodes_of_ne (hpc rfl hcl) hpp]
        exact ⟨hm, hle⟩
    · cases h
    · cases h
      have hcl := hset.parent_cluster ha hp
      rw [Search.place_nodes_parent hp hq (hpc rfl hcl)]
      by_cases hm : (s.nodes p).marked = true
      · simp only [hm, if_true, true_and]
        obtain ⟨hlog, -⟩ := hinv.fields.cluster p hcl hm
        exact hinv.bound _ hlog
      · simp [hm]
  · intro l
    rw [Search.place_links, hinv.fields.linkMarked l]
    simp only [Search.link_mem_place_log]
  · intro k l m b y he
    rw [Search.place_links]
    exact hinv.fields.linkCopied k l m b y (Search.link_mem_place_log.mp he)
  · intro k b y he hy
    have hne : (res.node r).parent ≠ some y := by
      intro h
      simp [(hset.reserved.parent r hr y h).2] at hy
    rw [Search.place_resNodes hne]
    rcases Search.node_mem_place_log.mp he with h | ⟨rfl, rfl, rfl⟩
    · have hyr : y ≠ r := by
        rintro rfl
        rw [hinv.fields.resNode k b y h hy] at hrm
        cases hrm
      rw [if_neg hyr]
      exact hinv.fields.resNode k b y h hy
    · rw [if_pos rfl]
  · intro k l m b y he
    rw [Search.place_resLinks]
    exact hinv.fields.resLink k l m b y (Search.link_mem_place_log.mp he)

theorem inv_place (hinv : Inv t res comp level s) (ha : comp level a)
    (hr : r < res.nodes.length) (hfit : TypeFits t res a r) (ham : (s.nodes a).marked = false)
    (hrm : (s.resNodes r).marked = false)
    (hpf : s.parentFits t res a r = some true) :
    Inv t res comp level (s.place t res level a r) where
  log := hinv.logOk_place ha hr hfit hrm hpf
  fields := hset.reflects_place hinv ha hr ham hrm
  bound e he := by
    rcases Search.mem_place_log.mp he with h | rfl | ⟨p, q, -, -, rfl⟩
    · exact hinv.bound e h
    · exact le_rfl
    · exact le_rfl

end Setting

/-! ### Joining a link -/

namespace Search

variable {t res : Topology} {level : ℕ} {s : Search} {l a m : ℕ} {side : Bool}

theorem mem_join_log {e : ℕ × Event} : e ∈ (s.join t res level l a m side).log ↔ e ∈ s.log ∨
    e = (level, Event.link l m ((t.link l).side (!t.thisSide l a)).node
      ((res.link m).side (!side)).node) := by
  simp [join]

@[simp] theorem join_nodes : (s.join t res level l a m side).nodes = s.nodes := rfl

@[simp] theorem join_resNodes : (s.join t res level l a m side).resNodes = s.resNodes := rfl

theorem join_links_self : ((s.join t res level l a m side).links l).marked = true ∧
    ((s.join t res level l a m side).links l).res = m ∧
    ((s.join t res level l a m side).links l).conns = (res.link m).conns := by
  simp [join]

theorem join_links_of_ne {l' : ℕ} (h : l' ≠ l) :
    (s.join t res level l a m side).links l' = s.links l' := by
  simp [join, h]

theorem join_resLinks {m' : ℕ} : (s.join t res level l a m side).resLinks m' =
    if m' = m then ⟨true, level⟩ else s.resLinks m' := by
  simp [join, Function.update_apply]

end Search

/-- What `pickLink` found: a free reserved link of `r` that suits the user link of `a`. -/
structure Picked (t res : Topology) (resLinks : ℕ → Mark) (l a r m : ℕ) (side : Bool) : Prop where
  free : (resLinks m).marked = false
  inc : res.Inc m r
  this : ((res.link m).side side).node = r
  port : ((t.link l).side (t.thisSide l a)).port = ((res.link m).side side).port
  otherPort : ((t.link l).side (!t.thisSide l a)).port = ((res.link m).side (!side)).port
  fits : TypeFits t res ((t.link l).side (!t.thisSide l a)).node ((res.link m).side (!side)).node

namespace Topology

/-- The side that `find_mapping` takes for the end at `a` is one. -/
theorem Wf.thisSide_node {t : Topology} (h : t.Wf) {l a : ℕ} (hl : t.Inc l a) :
    ((t.link l).side (t.thisSide l a)).node = a := by
  have h1 : t.Inc l (t.link l).end1.node := ⟨hl.1, Or.inl rfl⟩
  unfold thisSide
  by_cases heq : (t.node (t.link l).end1.node).label = (t.node a).label
  · simpa [heq] using h.label_inj _ (h.ends l _ h1) _ (h.ends l _ hl) heq
  · rcases hl.2 with h' | h'
    · exact absurd (by rw [h']) heq
    · simpa [heq] using h'

theorem inc_side {t : Topology} {l a : ℕ} (hl : t.Inc l a) (o : Bool) :
    t.Inc l ((t.link l).side o).node := by
  cases o
  · exact ⟨hl.1, Or.inr rfl⟩
  · exact ⟨hl.1, Or.inl rfl⟩

/-- An end of a link is one of the two sides. -/
theorem eq_side_or {t : Topology} {l a : ℕ} (hl : t.Inc l a) (o : Bool) :
    a = ((t.link l).side o).node ∨ a = ((t.link l).side !o).node := by
  rcases hl.2 with h | h <;> cases o <;> simp [h]

theorem Wf.resThisSide_node {res : Topology} (h : res.Wf) {m r port : ℕ} (hm : res.Inc m r) :
    ((res.link m).side (res.resThisSide m r port)).node = r := by
  have h1 : res.Inc m (res.link m).end1.node := ⟨hm.1, Or.inl rfl⟩
  have h2 : res.Inc m (res.link m).end2.node := ⟨hm.1, Or.inr rfl⟩
  unfold resThisSide
  by_cases hloop : res.resIsLoopback m = true
  · -- both ends of a loopback link are the node
    have hlabel : (res.node (res.link m).end1.node).label =
        (res.node (res.link m).end2.node).label := by
      simp only [resIsLoopback, decide_eq_true_eq] at hloop
      exact hloop.1
    have heq := h.label_inj _ (h.ends m _ h1) _ (h.ends m _ h2) hlabel
    have hboth : (res.link m).end1.node = r ∧ (res.link m).end2.node = r := by
      rcases hm.2 with h' | h'
      · exact ⟨h', heq ▸ h'⟩
      · exact ⟨heq.trans h', h'⟩
    rw [if_pos hloop]
    cases decide (port ≠ (res.link m).end2.port) <;> simp [hboth]
  · rw [if_neg hloop]
    by_cases hthis : (res.node (res.link m).end1.node).label = (res.node r).label ∧
        (res.node (res.link m).end1.node).vmid = (res.node r).vmid
    · simpa [hthis] using h.label_inj _ (h.ends m _ h1) _ (h.ends m _ hm) hthis.1
    · rcases hm.2 with h' | h'
      · exact absurd (by rw [h']; exact ⟨rfl, rfl⟩) hthis
      · simpa [hthis] using h'

end Topology

theorem pickLink_spec {t res : Topology} (hres : res.Wf) {resLinks : ℕ → Mark} {l a r : ℕ}
    {ms : List ℕ} (hms : ∀ m ∈ ms, res.Inc m r) {m : ℕ} {side : Bool}
    (h : pickLink t res resLinks l a r ms = some (m, side)) :
    Picked t res resLinks l a r m side := by
  induction ms with
  | nil => cases h
  | cons x ms ih =>
    have hms' : ∀ m ∈ ms, res.Inc m r := fun m h => hms m (List.mem_cons_of_mem _ h)
    have hx := hms x List.mem_cons_self
    simp only [pickLink] at h
    split at h
    · exact ih hms' h
    · rename_i hfree
      split at h
      · exact ih hms' h
      · split at h
        · rename_i hport
          split at h
          · cases h
          · rename_i hfits
            split at h
            · cases h
            · rename_i hother
              cases h
              exact ⟨by simpa using hfree, hx, hres.resThisSide_node hx, hport.1,
                not_not.mp hother, not_not.mp hfits⟩
        · exact ih hms' h

/-- The invariant is kept by joining a link of a node that is already placed. -/
theorem Inv.join {t res : Topology} {comp : ℕ → ℕ → Prop} {level : ℕ} {s : Search}
    (hinv : Inv t res comp level s) (ht : t.Wf) {l a r m : ℕ} {side : Bool}
    (ha : (level, Event.node a r) ∈ s.log) (hl : t.Inc l a) (hlm : (s.links l).marked = false)
    (hp : Picked t res s.resLinks l a r m side) :
    Inv t res comp level (s.join t res level l a m side) := by
  have hold : ∀ {e}, e ∈ s.log → e ∈ (s.join t res level l a m side).log :=
    fun h => Search.mem_join_log.mpr (Or.inl h)
  have hnode : ∀ {k b y}, (k, Event.node b y) ∈ (s.join t res level l a m side).log ↔
      (k, Event.node b y) ∈ s.log := by
    intro k b y
    rw [Search.mem_join_log]
    simp
  have hparent : ∀ {k p q}, (k, Event.parent p q) ∈ (s.join t res level l a m side).log ↔
      (k, Event.parent p q) ∈ s.log := by
    intro k p q
    rw [Search.mem_join_log]
    simp
  have hlink : ∀ {k l' m' b y}, (k, Event.link l' m' b y) ∈ (s.join t res level l a m side).log →
      (k, Event.link l' m' b y) ∈ s.log ∨ k = level ∧ l' = l ∧ m' = m ∧
        b = ((t.link l).side (!t.thisSide l a)).node ∧ y = ((res.link m).side (!side)).node := by
    intro k l' m' b y he
    rw [Search.mem_join_log] at he
    simpa using he
  have hnew : (level, Event.link l m ((t.link l).side (!t.thisSide l a)).node
      ((res.link m).side (!side)).node) ∈ (s.join t res level l a m side).log :=
    Search.mem_join_log.mpr (Or.inr rfl)
  -- neither the user link nor the reserved link is in the log yet
  have hl' : ∀ {k m' b y}, (k, Event.link l m' b y) ∉ s.log := by
    intro k m' b y he
    rw [(hinv.fields.linkMarked l).mpr ⟨k, m', b, y, he⟩] at hlm
    cases hlm
  have hm' : ∀ {k l' b y}, (k, Event.link l' m b y) ∉ s.log := by
    intro k l' b y he
    have hfree := hp.free
    rw [hinv.fields.resLink k l' m b y he] at hfree
    cases hfree
  refine ⟨⟨?_, ?_, ?_, ?_, ?_, ?_⟩, ⟨?_, ?_, ?_, ?_, ?_, ?_, ?_, ?_⟩, ?_⟩
  · exact fun k b y he => hinv.log.node k b y (hnode.mp he)
  · exact fun k k' b c y he he' => hinv.log.inj k k' b c y (hnode.mp he) (hnode.mp he')
  · intro k b y p he hpar
    obtain ⟨q, hq, hlog⟩ := hinv.log.child k b y p (hnode.mp he) hpar
    exact ⟨q, hq, hold hlog⟩
  · intro k p q he
    obtain ⟨b, y, hlog, hrest⟩ := hinv.log.parent k p q (hparent.mp he)
    exact ⟨b, y, hold hlog, hrest⟩
  · intro k l' n b y he
    rcases hlink he with h | ⟨rfl, rfl, rfl, rfl, rfl⟩
    · obtain ⟨hfit, hb, hy, c, z, hlog, hjoin⟩ := hinv.log.link k l' n b y h
      exact ⟨hfit, hb, hy, c, z, hold hlog, hjoin⟩
    · refine ⟨hp.fits, Topology.inc_side hl _, Topology.inc_side hp.inc _, a, r, hold ha, ?_⟩
      exact ⟨t.thisSide l' a, side, ht.thisSide_node hl, rfl, hp.this, rfl, hp.port, hp.otherPort⟩
  · intro k k' l₁ l₂ n b b' y y' he he'
    rcases hlink he with h | ⟨-, rfl, rfl, -⟩ <;> rcases hlink he' with h' | ⟨-, hl₂, hn, -⟩
    · exact hinv.log.link_inj k k' l₁ l₂ n b b' y y' h h'
    · exact absurd (hn ▸ h) hm'
    · exact absurd h' hm'
    · exact hl₂.symm
  · intro b hb
    rw [Search.join_nodes, hinv.fields.marked b hb]
    simp only [hnode]
  · exact fun k b y he => hinv.fields.copied k b y (hnode.mp he)
  · intro p hp hpm
    obtain ⟨hlog, hname⟩ := hinv.fields.cluster p hp hpm
    exact ⟨hold hlog, hname⟩
  · exact fun k p q he => hinv.fields.clusterMarked k p q (hparent.mp he)
  · intro l'
    by_cases hll : l' = l
    · subst hll
      exact ⟨fun _ => ⟨_, _, _, _, hnew⟩, fun _ => Search.join_links_self.1⟩
    · rw [Search.join_links_of_ne hll, hinv.fields.linkMarked l']
      constructor
      · rintro ⟨k, n, b, y, he⟩
        exact ⟨k, n, b, y, hold he⟩
      · rintro ⟨k, n, b, y, he⟩
        rcases hlink he with h | ⟨-, h, -⟩
        · exact ⟨k, n, b, y, h⟩
        · exact absurd h hll
  · intro k l' n b y he
    rcases hlink he with h | ⟨-, rfl, rfl, -⟩
    · have hll : l' ≠ l := fun h' => hl' (h' ▸ h)
      rw [Search.join_links_of_ne hll]
      exact hinv.fields.linkCopied k l' n b y h
    · exact Search.join_links_self.2
  · exact fun k b y he => hinv.fields.resNode k b y (hnode.mp he)
  · intro k l' n b y he
    rw [Search.join_resLinks]
    rcases hlink he with h | ⟨rfl, -, rfl, -⟩
    · have hnm : n ≠ m := fun h' => hm' (h' ▸ h)
      rw [if_neg hnm]
      exact hinv.fields.resLink k l' n b y h
    · rw [if_pos rfl]
  · intro e he
    rcases Search.mem_join_log.mp he with h | rfl
    · exact hinv.bound e h
    · exact le_rfl

end OnlDaemons.Onldb
