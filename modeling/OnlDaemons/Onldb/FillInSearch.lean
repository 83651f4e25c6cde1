import OnlDaemons.Onldb.FillInInvariant

/-!
# What the search finds

A call of `find_mapping` keeps the invariant whether it succeeds or not; one that succeeds has
explored the whole part of the topology its node is in. The clean-up takes the entries of its
level out of the log, and so `subset_assign` either gives back the assignments it was called
with or has all parts assigned.

## Main definitions

- `Search.Explores` — a finished call as an exploration of the user's topology
- `Done` — a part whose nodes and links are all assigned
-/

namespace OnlDaemons.Onldb

open Lib

/-- What a finished call did to the marks of the user's topology. -/
def Search.Explores (t : Topology) (s s' : Search) : Prop :=
  Explored t.Inc (fun a => (s.nodes a).marked = true) (fun l => (s.links l).marked = true)
    (fun a => (s'.nodes a).marked = true) (fun l => (s'.links l).marked = true)

/-- The invariant holds afterwards and nothing was taken out of the log. -/
structure Kept (t res : Topology) (comp : ℕ → ℕ → Prop) (level : ℕ) (s s' : Search) : Prop where
  inv : Inv t res comp level s'
  log : ∀ e ∈ s.log, e ∈ s'.log

theorem Kept.trans {t res : Topology} {comp : ℕ → ℕ → Prop} {level : ℕ} {s s₁ s' : Search}
    (h : Kept t res comp level s s₁) (h' : Kept t res comp level s₁ s') :
    Kept t res comp level s s' :=
  ⟨h'.inv, fun e he => h'.log e (h.log e he)⟩

/-- The specification of `find_mapping`. -/
def FindSpec (t res : Topology) (comp : ℕ → ℕ → Prop) (level : ℕ)
    (find : Search → ℕ → ℕ → Option (Bool × Search)) : Prop :=
  ∀ s a r ok s', Inv t res comp level s → comp level a → r < res.nodes.length →
    TypeFits t res a r → find s a r = some (ok, s') →
    Kept t res comp level s s' ∧
      (ok = true → s.Explores t s' ∧ (s'.nodes a).marked = true)

namespace Setting

variable {t res : Topology} {comp : ℕ → ℕ → Prop} (hset : Setting t res comp)
  {level : ℕ} {s s' : Search}
include hset

theorem mapLinks_spec {find : Search → ℕ → ℕ → Option (Bool × Search)}
    (hfind : FindSpec t res comp level find) {a r : ℕ} {ls : List ℕ} {ok : Bool}
    (hls : ∀ l ∈ ls, t.Inc l a) (hinv : Inv t res comp level s)
    (ha : (level, Event.node a r) ∈ s.log)
    (h : mapLinks t res level find a r ls s = some (ok, s')) :
    Kept t res comp level s s' ∧
      (ok = true → s.Explores t s' ∧ ∀ l ∈ ls, (s'.links l).marked = true) := by
  induction ls generalizing s with
  | nil =>
    cases h
    exact ⟨⟨hinv, fun _ he => he⟩, fun _ => ⟨Explored.refl, by simp⟩⟩
  | cons l ls ih =>
    have hl := hls l List.mem_cons_self
    have hls' : ∀ l ∈ ls, t.Inc l a := fun l h => hls l (List.mem_cons_of_mem _ h)
    obtain ⟨hca, hr, -⟩ := hinv.log.node level a r ha
    unfold mapLinks at h
    split at h
    · rename_i hmark
      obtain ⟨hkept, hok⟩ := ih hls' hinv ha h
      refine ⟨hkept, fun htrue => ?_⟩
      obtain ⟨hex, hall⟩ := hok htrue
      refine ⟨hex, fun x hx => ?_⟩
      rcases List.mem_cons.mp hx with rfl | hx
      · exact hex.links _ hmark
      · exact hall x hx
    · rename_i hmark
      split at h
      · cases h
        exact ⟨⟨hinv, fun _ he => he⟩, by simp⟩
      · rename_i m side hpick
        have hp : Picked t res s.resLinks l a r m side :=
          pickLink_spec hset.reserved (fun m hm => (hset.reserved.mem_links r hr m).mp hm) hpick
        have hlm : (s.links l).marked = false := by simpa using hmark
        have hinv₁ := hinv.join hset.user ha hl hlm hp
        have hother := Topology.inc_side hl (!t.thisSide l a)
        have hrother := Topology.inc_side hp.inc (!side)
        have hcb := (hset.parts.conn level a _ hca).mpr (Reach.link hl hother)
        obtain ⟨⟨found, s₁⟩, hcall, h⟩ := Option.bind_eq_some_iff.mp h
        obtain ⟨hkept₁, hok₁⟩ := hfind _ _ _ _ _ hinv₁ hcb (hset.reserved.ends m _ hrother)
          hp.fits hcall
        have hlog₁ : ∀ e ∈ s.log, e ∈ s₁.log :=
          fun e he => hkept₁.log e (Search.mem_join_log.mpr (Or.inl he))
        cases found with
        | false =>
          cases h
          exact ⟨⟨hkept₁.inv, hlog₁⟩, by simp⟩
        | true =>
          simp only [if_true] at h
          obtain ⟨hkept, hok⟩ := ih hls' hkept₁.inv (hlog₁ _ ha) h
          refine ⟨Kept.trans ⟨hkept₁.inv, hlog₁⟩ hkept, fun htrue => ?_⟩
          obtain ⟨hex₁, hb₁⟩ := hok₁ rfl
          obtain ⟨hex, hall⟩ := hok htrue
          have ha₁ : (s₁.nodes a).marked = true :=
            (hkept₁.inv.fields.marked a (hset.plain.leaf l a hl)).mpr ⟨level, r, hlog₁ _ ha⟩
          have hl₁ : (s₁.links l).marked = true := hex₁.links l Search.join_links_self.1
          have hstep : s.Explores t s₁ := by
            refine Explored.follow (e := l) hex₁ ?_ ?_
            · intro x
              by_cases hx : x = l
              · subst hx
                simp [Search.join_links_self.1]
              · simp [Search.join_links_of_ne hx, hx]
            · intro n hn
              rcases Topology.eq_side_or hn (t.thisSide l a) with hthis | hother
              · rw [hthis, hset.user.thisSide_node hl]
                exact ha₁
              · rw [hother]
                exact hb₁
          refine ⟨hstep.trans hex, fun x hx => ?_⟩
          rcases List.mem_cons.mp hx with rfl | hx
          · exact hex.links _ hl₁
          · exact hall x hx

theorem findMapping_spec (fuel : ℕ) :
    FindSpec t res comp level (findMapping t res level fuel) := by
  induction fuel with
  | zero =>
    intro s a r ok s' _ _ _ _ h
    cases h
  | succ fuel ih =>
    intro s a r ok s' hinv ha hr hfit h
    have hkeep : Kept t res comp level s s := ⟨hinv, fun _ he => he⟩
    obtain ⟨halt, hleaf⟩ := hset.parts.leaf level a ha
    unfold findMapping at h
    split at h
    · rename_i hmark
      cases h
      exact ⟨hkeep, fun _ => ⟨Explored.refl, hmark⟩⟩
    rename_i hmark
    have ham : (s.nodes a).marked = false := by simpa using hmark
    split at h
    · cases h
      exact ⟨hkeep, by simp⟩
    rename_i hrmark
    have hrm : (s.resNodes r).marked = false := by simpa using hrmark
    split at h
    · cases h
    · cases h
      exact ⟨hkeep, by simp⟩
    rename_i hpf
    have hinv₁ := hset.inv_place hinv ha hr hfit ham hrm hpf
    have hlinks : ∀ l ∈ (t.node a).links, t.Inc l a := fun l => (hset.user.mem_links a halt l).mp
    have hlog : (level, Event.node a r) ∈ (s.place t res level a r).log :=
      Search.node_mem_place_log.mpr (Or.inr ⟨rfl, rfl, rfl⟩)
    obtain ⟨hkept, hok⟩ := hset.mapLinks_spec ih hlinks hinv₁ hlog h
    refine ⟨⟨hkept.inv, fun e he => hkept.log e (Search.mem_place_log.mpr (Or.inl he))⟩, ?_⟩
    intro htrue
    obtain ⟨hex, hall⟩ := hok htrue
    have hmarked : (s'.nodes a).marked = true :=
      (hkept.inv.fields.marked a hleaf).mpr ⟨level, r, hkept.log _ hlog⟩
    have hne : ∀ n, (t.node n).isParent = false → (t.node a).parent ≠ some n :=
      fun n hn hp => hset.parent_ne ha hn hp rfl
    refine ⟨?_, hmarked⟩
    have hex' : Explored t.Inc (fun n => ((s.place t res level a r).nodes n).marked = true)
        (fun l => (s.links l).marked = true) (fun n => (s'.nodes n).marked = true)
        (fun l => (s'.links l).marked = true) := by
      simpa [Search.Explores] using hex
    refine Explored.visit hex' ?_ ?_
    · intro n hn
      by_cases hna : n = a
      · rw [hna, Search.place_nodes_self (hne a hleaf)]
      · by_cases hp : (t.node a).parent = some n
        · obtain ⟨q, hq⟩ := Search.parentFits_true hpf hp
          rw [Search.place_nodes_parent hp hq hna]
          simp [hn]
        · rw [Search.place_nodes_of_ne hna hp]
          exact hn
    · -- of the nodes just marked, the cluster has no links
      intro n hn hnm l hl
      by_cases hna : n = a
      · exact hall l ((hset.user.mem_links a halt l).mpr (hna ▸ hl))
      · rw [Search.place_nodes_of_ne hna (hne n (hset.plain.leaf l n hl))] at hn
        exact absurd hn hnm

end Setting

/-! ### The clean-up -/

namespace Search

variable {t res : Topology} {level : ℕ}

/-- Nothing but reserved nodes and links of the level has changed. -/
structure OnlyLevel (level : ℕ) (s s' : Search) : Prop where
  nodes : s'.nodes = s.nodes
  links : s'.links = s.links
  log : s'.log = s.log
  resNodes : ∀ r, (s.resNodes r).level ≠ level → s'.resNodes r = s.resNodes r
  resLinks : ∀ m, (s.resLinks m).level ≠ level → s'.resLinks m = s.resLinks m

theorem clearMarks_of_ne (ms : List ℕ) (marks : ℕ → Mark) (m : ℕ)
    (h : (marks m).level ≠ level) :
    ms.foldl (fun marks m => if (marks m).marked ∧ (marks m).level = level then
      Function.update marks m {} else marks) marks m = marks m := by
  induction ms generalizing marks with
  | nil => rfl
  | cons x ms ih =>
    simp only [List.foldl_cons]
    split
    · rename_i hx
      have hmx : m ≠ x := by
        rintro rfl
        exact h hx.2
      have hsame : Function.update marks x {} m = marks m := Function.update_of_ne hmx _ _
      rw [ih _ (by rwa [hsame]), hsame]
    · exact ih _ h

theorem onlyLevel_clearReserved (s : Search) (r : ℕ) :
    OnlyLevel level s (s.clearReserved res level r) := by
  unfold clearReserved
  split
  · rename_i hr
    refine ⟨rfl, rfl, rfl, ?_, fun m hm => clearMarks_of_ne _ _ _ hm⟩
    intro r' hr'
    have hne : r' ≠ r := by
      rintro rfl
      exact hr' hr.2
    have hsame : Function.update s.resNodes r {} r' = s.resNodes r' := Function.update_of_ne hne _ _
    cases hp : (res.node r).parent with
    | none => exact hsame
    | some q =>
      simp only
      split
      · rename_i hq
        have hqr : r' ≠ q := by
          rintro rfl
          rw [hsame] at hq
          exact hr' hq.2
        rw [Function.update_of_ne hqr, hsame]
      · exact hsame
  · exact ⟨rfl, rfl, rfl, fun _ _ => rfl, fun _ _ => rfl⟩

theorem onlyLevel_foldl (rs : List ℕ) (s : Search) :
    OnlyLevel level s (rs.foldl (clearReserved res level) s) := by
  induction rs generalizing s with
  | nil => exact ⟨rfl, rfl, rfl, fun _ _ => rfl, fun _ _ => rfl⟩
  | cons r rs ih =>
    have h₁ : OnlyLevel level s (s.clearReserved res level r) := onlyLevel_clearReserved s r
    have h₂ := ih (s.clearReserved res level r)
    refine ⟨h₂.nodes.trans h₁.nodes, h₂.links.trans h₁.links, h₂.log.trans h₁.log, ?_, ?_⟩
    · intro r' hr'
      have he := h₁.resNodes r' hr'
      exact (h₂.resNodes r' (by rwa [he])).trans he
    · intro m hm
      have he := h₁.resLinks m hm
      exact (h₂.resLinks m (by rwa [he])).trans he

/-- What the clean-up of the user nodes `as` did. -/
structure ClearedUsers (t : Topology) (level : ℕ) (as : List ℕ) (s s' : Search) : Prop where
  resNodes : s'.resNodes = s.resNodes
  resLinks : s'.resLinks = s.resLinks
  log : s'.log = s.log
  unmarked : ∀ a ∈ as, (t.node a).isParent = false → (s'.nodes a).marked = false
  other : ∀ a, a ∉ as → (t.node a).isParent = false → s'.nodes a = s.nodes a
  cluster : ∀ p, (t.node p).isParent = true → (s'.nodes p).marked = true →
    s'.nodes p = s.nodes p ∧
      ((s.nodes p).level = level → ∀ a ∈ as, (t.node a).parent ≠ some p)
  clusterKept : ∀ p, (t.node p).isParent = true → (s.nodes p).level ≠ level →
    s'.nodes p = s.nodes p
  link : ∀ l, (∃ a ∈ as, l ∈ (t.node a).links) → (s'.links l).marked = false
  linkOther : ∀ l, (∀ a ∈ as, l ∉ (t.node a).links) → s'.links l = s.links l

theorem clearLinks (ls : List ℕ) (links : ℕ → UserLink) (l : ℕ) :
    let links' := ls.foldl (fun links l => Function.update links l
      { links l with marked := false, conns := [], node1Rport := -1, node2Rport := -1 }) links
    ((l ∈ ls ∨ (links l).marked = false) → (links' l).marked = false) ∧
      (l ∉ ls → links' l = links l) := by
  induction ls generalizing links with
  | nil => simp
  | cons x ls ih =>
    obtain ⟨h₁, h₂⟩ := ih (Function.update links x
      { links x with marked := false, conns := [], node1Rport := -1, node2Rport := -1 })
    simp only [List.foldl_cons]
    refine ⟨fun h => h₁ ?_, fun h => ?_⟩
    · by_cases hlx : l = x
      · right
        simp [hlx]
      · rw [Function.update_of_ne hlx]
        exact h.imp_left (fun h => (List.mem_cons.mp h).resolve_left hlx)
    · have hlx : l ≠ x := fun h' => h (h' ▸ List.mem_cons_self)
      rw [h₂ (fun h' => h (List.mem_cons_of_mem _ h')), Function.update_of_ne hlx]

theorem clearUser_nodes_self {s : Search} {a : ℕ} (hne : (t.node a).parent ≠ some a) :
    ((s.clearUser t level a).nodes a).marked = false := by
  unfold clearUser
  cases hp : (t.node a).parent with
  | none => simp
  | some p =>
    have hpa : a ≠ p := fun h => hne (h ▸ hp)
    simp only
    split <;> simp [hpa]

theorem clearUser_nodes_of_ne {s : Search} {a b : ℕ} (hb : b ≠ a)
    (hne : (t.node a).parent ≠ some b) : (s.clearUser t level a).nodes b = s.nodes b := by
  unfold clearUser
  cases hp : (t.node a).parent with
  | none => simp [hb]
  | some p =>
    have hpb : b ≠ p := fun h => hne (h ▸ hp)
    simp only
    split <;> simp [hpb, hb]

/-- The cluster of a node that is cleared. -/
theorem clearUser_nodes_parent {s : Search} {a p : ℕ} (hp : (t.node a).parent = some p)
    (hne : p ≠ a) : (s.clearUser t level a).nodes p =
      if (s.nodes p).marked ∧ (s.nodes p).level = level then
        { s.nodes p with marked := false, level := 0 }
      else s.nodes p := by
  unfold clearUser
  simp only [hp, Function.update_of_ne hne]
  by_cases h : (s.nodes p).marked ∧ (s.nodes p).level = level
  · simp only [if_pos h, Function.update_self]
  · simp only [if_neg h, Function.update_of_ne hne]

theorem clearedUsers_foldl {as : List ℕ}
    (has : ∀ a ∈ as, (t.node a).isParent = false ∧
      ∀ p, (t.node a).parent = some p → (t.node p).isParent = true) (s : Search) :
    ClearedUsers t level as s (as.foldl (clearUser t level) s) := by
  induction as generalizing s with
  | nil => constructor <;> simp
  | cons a as ih =>
    obtain ⟨haleaf, hpar⟩ := has a List.mem_cons_self
    have hself : (t.node a).parent ≠ some a := by
      intro h
      simp [hpar a h] at haleaf
    have hleaf : ∀ {b}, (t.node b).isParent = false → (t.node a).parent ≠ some b := by
      intro b hb h
      simp [hpar b h] at hb
    have hcl : ∀ {p}, (t.node p).isParent = true → p ≠ a := by
      rintro p hp rfl
      simp [hp] at haleaf
    have h := ih (fun b hb => has b (List.mem_cons_of_mem _ hb)) (s.clearUser t level a)
    have hlinks := clearLinks (t.node a).links s.links
    -- what the first step does to a cluster
    have hstep : ∀ p, (t.node p).isParent = true →
        ((s.clearUser t level a).nodes p).marked = true →
        (s.clearUser t level a).nodes p = s.nodes p ∧
          ((s.nodes p).level = level → (t.node a).parent ≠ some p) := by
      intro p hp hm
      by_cases hpp : (t.node a).parent = some p
      · rw [clearUser_nodes_parent hpp (hcl hp)] at hm ⊢
        split at hm
        · cases hm
        · rename_i hno
          rw [if_neg hno]
          exact ⟨rfl, fun hlev => absurd ⟨hm, hlev⟩ hno⟩
      · exact ⟨clearUser_nodes_of_ne (hcl hp) hpp, fun _ => hpp⟩
    refine ⟨h.resNodes, h.resLinks, h.log, ?_, ?_, ?_, ?_, ?_, ?_⟩
    · intro b hb hbl
      by_cases hbas : b ∈ as
      · exact h.unmarked b hbas hbl
      · obtain rfl := (List.mem_cons.mp hb).resolve_right hbas
        rw [List.foldl_cons, h.other b hbas hbl]
        exact clearUser_nodes_self hself
    · intro b hb hbl
      rw [List.mem_cons, not_or] at hb
      rw [List.foldl_cons, h.other b hb.2 hbl]
      exact clearUser_nodes_of_ne hb.1 (hleaf hbl)
    · intro p hp hm
      obtain ⟨heq, hrest⟩ := h.cluster p hp hm
      rw [List.foldl_cons, heq] at hm
      obtain ⟨heq₁, ha⟩ := hstep p hp hm
      refine ⟨heq.trans heq₁, fun hlev b hb => ?_⟩
      rcases List.mem_cons.mp hb with rfl | hb
      · exact ha hlev
      · exact hrest (by rwa [heq₁]) b hb
    · intro p hp hlev
      have heq₁ : (s.clearUser t level a).nodes p = s.nodes p := by
        by_cases hpp : (t.node a).parent = some p
        · rw [clearUser_nodes_parent hpp (hcl hp), if_neg (fun hc => hlev hc.2)]
        · exact clearUser_nodes_of_ne (hcl hp) hpp
      rw [List.foldl_cons, h.clusterKept p hp (by rwa [heq₁]), heq₁]
    · rintro l ⟨b, hb, hl⟩
      by_cases hlas : ∃ c ∈ as, l ∈ (t.node c).links
      · exact h.link l hlas
      · have hlas' : ∀ c ∈ as, l ∉ (t.node c).links := fun c hc hlc => hlas ⟨c, hc, hlc⟩
        rw [List.foldl_cons, h.linkOther l hlas']
        rcases List.mem_cons.mp hb with rfl | hb
        · exact (hlinks l).1 (Or.inl hl)
        · exact absurd hl (hlas' b hb)
    · intro l hl
      rw [List.foldl_cons, h.linkOther l (fun b hb => hl b (List.mem_cons_of_mem _ hb))]
      exact (hlinks l).2 (hl a List.mem_cons_self)

end Search

/-- The user link of a log entry is a link of the placed node the entry goes back to. -/
theorem LogOk.link_comp {t res : Topology} {comp : ℕ → ℕ → Prop} {log : List (ℕ × Event)}
    (h : LogOk t res comp log) (hparts : Parts t comp) {k l m b y : ℕ}
    (he : (k, Event.link l m b y) ∈ log) {a : ℕ} (ha : t.Inc l a) : comp k a := by
  obtain ⟨-, hb, -, c, z, hlog, o, -, hc, -⟩ := h.link k l m b y he
  have hlc : t.Inc l c := hc ▸ Topology.inc_side hb o
  exact (hparts.conn k c a (h.node k c z hlog).1).mpr (Reach.link hlc ha)

namespace Setting

variable {t res : Topology} {comp : ℕ → ℕ → Prop} (hset : Setting t res comp) {k : ℕ}
  {s s' : Search}
include hset

/-- The clean-up of a level gives back the invariant of the levels below it. -/
theorem inv_cleanUp (rl : List AssignInfo) {al : List AssignInfo} (hinv : Inv t res comp (k + 1) s)
    (hal : ∀ a, Users al a ↔ comp (k + 1) a) :
    Inv t res comp k (s.cleanUp t res (k + 1) rl al) ∧
      ∀ e ∈ s.log, e.1 ≤ k → e ∈ (s.cleanUp t res (k + 1) rl al).log := by
  have husers : ∀ a, a ∈ al.flatMap (·.userNodes) ↔ comp (k + 1) a := by
    intro a
    rw [← hal a]
    simp [Users]
  have hleaf : ∀ a ∈ al.flatMap (·.userNodes), (t.node a).isParent = false ∧
      ∀ p, (t.node a).parent = some p → (t.node p).isParent = true := by
    intro a ha
    have hca := (husers a).mp ha
    exact ⟨(hset.parts.leaf _ a hca).2, fun p hp => hset.parent_cluster hca hp⟩
  have hr : Search.OnlyLevel (k + 1) s
      ((rl.flatMap (·.testbedNodes)).foldl (Search.clearReserved res (k + 1)) s) :=
    Search.onlyLevel_foldl _ s
  have hu : Search.ClearedUsers t (k + 1) (al.flatMap (·.userNodes))
      ((rl.flatMap (·.testbedNodes)).foldl (Search.clearReserved res (k + 1)) s)
      ((al.flatMap (·.userNodes)).foldl (Search.clearUser t (k + 1))
        ((rl.flatMap (·.testbedNodes)).foldl (Search.clearReserved res (k + 1)) s)) :=
    Search.clearedUsers_foldl hleaf _
  -- the log is the old one without the entries of the level
  have hlogeq : (s.cleanUp t res (k + 1) rl al).log = s.log.filter (fun e => e.1 ≠ k + 1) := by
    simp [Search.cleanUp, hu.log, hr.log]
  have hmem : ∀ {e}, e ∈ (s.cleanUp t res (k + 1) rl al).log ↔ e ∈ s.log ∧ e.1 ≠ k + 1 := by
    intro e
    rw [hlogeq]
    simp
  have hlog : LogOk t res comp (s.cleanUp t res (k + 1) rl al).log := by
    rw [hlogeq]
    exact hinv.log.filter (fun j => j ≠ k + 1)
  have hnodes : (s.cleanUp t res (k + 1) rl al).nodes =
      ((al.flatMap (·.userNodes)).foldl (Search.clearUser t (k + 1))
        ((rl.flatMap (·.testbedNodes)).foldl (Search.clearReserved res (k + 1)) s)).nodes := rfl
  have hlinks : (s.cleanUp t res (k + 1) rl al).links =
      ((al.flatMap (·.userNodes)).foldl (Search.clearUser t (k + 1))
        ((rl.flatMap (·.testbedNodes)).foldl (Search.clearReserved res (k + 1)) s)).links := rfl
  have hother : ∀ {a}, ¬comp (k + 1) a → (t.node a).isParent = false →
      (s.cleanUp t res (k + 1) rl al).nodes a = s.nodes a := by
    intro a ha hl
    rw [hnodes, hu.other a (fun h => ha ((husers a).mp h)) hl, hr.nodes]
  -- an entry that is left belongs to another part
  have hne : ∀ {j a r}, (j, Event.node a r) ∈ (s.cleanUp t res (k + 1) rl al).log →
      ¬comp (k + 1) a := by
    intro j a r he hc
    obtain ⟨he, hj⟩ := hmem.mp he
    exact hj (hset.parts.one j (k + 1) a (hinv.log.node j a r he).1 hc)
  have hlinkne : ∀ {j l m b y}, (j, Event.link l m b y) ∈ (s.cleanUp t res (k + 1) rl al).log →
      ∀ a ∈ al.flatMap (·.userNodes), l ∉ (t.node a).links := by
    intro j l m b y he a ha hl
    obtain ⟨he, hj⟩ := hmem.mp he
    have hca := (husers a).mp ha
    have hinc := (hset.user.mem_links a (hset.parts.leaf _ a hca).1 l).mp hl
    exact hj (hset.parts.one j (k + 1) a (hinv.log.link_comp hset.parts he hinc) hca)
  have hlinkother : ∀ {l}, (∀ a ∈ al.flatMap (·.userNodes), l ∉ (t.node a).links) →
      (s.cleanUp t res (k + 1) rl al).links l = s.links l := by
    intro l hl
    rw [hlinks, hu.linkOther l hl, hr.links]
  have hmarkedCluster : ∀ p, (t.node p).isParent = true →
      ((s.cleanUp t res (k + 1) rl al).nodes p).marked = true →
      (s.cleanUp t res (k + 1) rl al).nodes p = s.nodes p ∧ (s.nodes p).level ≠ k + 1 := by
    intro p hp hm
    obtain ⟨heq, hcl⟩ := hu.cluster p hp hm
    rw [hr.nodes] at heq hcl
    refine ⟨heq, fun hlev => ?_⟩
    have hsm : (s.nodes p).marked = true := by rw [← heq]; exact hm
    obtain ⟨hpe, -⟩ := hinv.fields.cluster p hp hsm
    rw [hlev] at hpe
    obtain ⟨a, r, ha, hap, -⟩ := hinv.log.parent _ _ _ hpe
    exact hcl hlev a ((husers a).mpr (hinv.log.node _ a r ha).1) hap
  refine ⟨⟨hlog, ⟨?_, ?_, ?_, ?_, ?_, ?_, ?_, ?_⟩, ?_⟩, fun e he hle => hmem.mpr ⟨he, by omega⟩⟩
  · intro a ha
    by_cases hca : comp (k + 1) a
    · have hun := hu.unmarked a ((husers a).mpr hca) ha
      rw [hnodes, hun]
      refine ⟨(by intros; contradiction), ?_⟩
      rintro ⟨j, r, he⟩
      exact absurd hca (hne he)
    · rw [hother hca ha, hinv.fields.marked a ha]
      constructor
      · rintro ⟨j, r, he⟩
        refine ⟨j, r, hmem.mpr ⟨he, ?_⟩⟩
        rintro rfl
        exact hca (hinv.log.node _ a r he).1
      · rintro ⟨j, r, he⟩
        exact ⟨j, r, (hmem.mp he).1⟩
  · intro j a r he
    have hold := (hmem.mp he).1
    rw [hother (hne he) (hset.parts.leaf j a (hinv.log.node j a r hold).1).2]
    exact hinv.fields.copied j a r hold
  · intro p hp hm
    obtain ⟨heq, hlev⟩ := hmarkedCluster p hp hm
    rw [heq] at hm ⊢
    obtain ⟨hpe, hname⟩ := hinv.fields.cluster p hp hm
    exact ⟨hmem.mpr ⟨hpe, hlev⟩, hname⟩
  · intro j p q he
    obtain ⟨hold, hj⟩ := hmem.mp he
    obtain ⟨hm, hle⟩ := hinv.fields.clusterMarked j p q hold
    obtain ⟨a, r, ha, hap, -⟩ := hinv.log.parent j p q hold
    have hp := hset.parent_cluster (hinv.log.node j a r ha).1 hap
    have hjk : j ≤ k + 1 := hinv.bound _ hold
    have hkept := hu.clusterKept p hp (by rw [hr.nodes]; omega)
    rw [hnodes, hkept, hr.nodes]
    exact ⟨hm, hle⟩
  · intro l
    by_cases hl : ∃ a ∈ al.flatMap (·.userNodes), l ∈ (t.node a).links
    · rw [hlinks, hu.link l hl]
      refine ⟨(by intros; contradiction), ?_⟩
      rintro ⟨j, m, b, y, he⟩
      obtain ⟨a, ha, hla⟩ := hl
      exact absurd hla (hlinkne he a ha)
    · have hl' : ∀ a ∈ al.flatMap (·.userNodes), l ∉ (t.node a).links :=
        fun a ha hla => hl ⟨a, ha, hla⟩
      rw [hlinkother hl', hinv.fields.linkMarked l]
      constructor
      · rintro ⟨j, m, b, y, he⟩
        refine ⟨j, m, b, y, hmem.mpr ⟨he, ?_⟩⟩
        rintro rfl
        obtain ⟨-, hb, -⟩ := hinv.log.link _ l m b y he
        have hcb := hinv.log.link_comp hset.parts he hb
        exact hl' b ((husers b).mpr hcb)
          ((hset.user.mem_links b (hset.parts.leaf _ b hcb).1 l).mpr hb)
      · rintro ⟨j, m, b, y, he⟩
        exact ⟨j, m, b, y, (hmem.mp he).1⟩
  · intro j l m b y he
    rw [hlinkother (hlinkne he)]
    exact hinv.fields.linkCopied j l m b y (hmem.mp he).1
  · intro j a r he hleafr
    obtain ⟨hold, hj⟩ := hmem.mp he
    have hmark := hinv.fields.resNode j a r hold hleafr
    have : (s.cleanUp t res (k + 1) rl al).resNodes r = s.resNodes r := by
      simp only [Search.cleanUp, hu.resNodes]
      exact hr.resNodes r (by rw [hmark]; exact hj)
    rw [this, hmark]
  · intro j l m b y he
    obtain ⟨hold, hj⟩ := hmem.mp he
    have hmark := hinv.fields.resLink j l m b y hold
    have : (s.cleanUp t res (k + 1) rl al).resLinks m = s.resLinks m := by
      simp only [Search.cleanUp, hu.resLinks]
      exact hr.resLinks m (by rw [hmark]; exact hj)
    rw [this, hmark]
  · intro e he
    obtain ⟨hold, hj⟩ := hmem.mp he
    have := hinv.bound e hold
    omega

end Setting

/-! ### The loop over the parts -/

/-- All nodes of a part and all their links are assigned. -/
def Done (t : Topology) (comp : ℕ → ℕ → Prop) (k : ℕ) (s : Search) : Prop :=
  ∀ a, comp k a → (s.nodes a).marked = true ∧ ∀ l, t.Inc l a → (s.links l).marked = true

theorem Done.kept {t res : Topology} {comp : ℕ → ℕ → Prop} {k : ℕ} {s s' : Search}
    (h : Done t comp k s) (hparts : Parts t comp) (hs : Reflects t res s) (hs' : Reflects t res s')
    (hlog : ∀ e ∈ s.log, e ∈ s'.log) : Done t comp k s' := by
  intro a ha
  obtain ⟨hm, hl⟩ := h a ha
  have hleaf := (hparts.leaf k a ha).2
  refine ⟨?_, fun l hla => ?_⟩
  · obtain ⟨j, r, he⟩ := (hs.marked a hleaf).mp hm
    exact (hs'.marked a hleaf).mpr ⟨j, r, hlog _ he⟩
  · obtain ⟨j, m, b, y, he⟩ := (hs.linkMarked l).mp (hl l hla)
    exact (hs'.linkMarked l).mpr ⟨j, m, b, y, hlog _ he⟩

/-- Rule for the loop over the reserved nodes: each failed try is cleaned up, so every try
starts from `P`. -/
theorem tryNodes_rule {P F M Q : Search → Prop} {find : Search → ℕ → Option (Bool × Search)}
    {next : Search → Option (Bool × Search)} {clean : Search → Search} {rs : List ℕ}
    (hfind : ∀ r ∈ rs, ∀ s ok s', P s → find s r = some (ok, s') → M s' ∧ (ok = true → F s'))
    (hnext : ∀ s ok s', F s → next s = some (ok, s') →
      (ok = false → M s') ∧ (ok = true → Q s'))
    (hclean : ∀ s, M s → P (clean s)) {s s' : Search} {ok : Bool} (hs : P s)
    (h : tryNodes find next clean rs s = some (ok, s')) :
    (ok = false → P s') ∧ (ok = true → Q s') := by
  induction rs generalizing s with
  | nil =>
    cases h
    exact ⟨fun _ => hs, by simp⟩
  | cons r rs ih =>
    have ih' := fun {s} => ih (s := s) (fun r hr => hfind r (List.mem_cons_of_mem _ hr))
    unfold tryNodes at h
    split at h
    · exact ih' hs h
    obtain ⟨⟨found, s₁⟩, hcall, h⟩ := Option.bind_eq_some_iff.mp h
    obtain ⟨hm, hf⟩ := hfind r List.mem_cons_self s found s₁ hs hcall
    cases found with
    | false => exact ih' (hclean s₁ hm) h
    | true =>
      obtain ⟨⟨good, s₂⟩, hcall₂, h⟩ := Option.bind_eq_some_iff.mp h
      obtain ⟨hm₂, hq⟩ := hnext s₁ good s₂ (hf rfl) hcall₂
      cases good with
      | false => exact ih' (hclean s₂ (hm₂ rfl)) h
      | true =>
        cases h
        exact ⟨by simp, fun _ => hq rfl⟩

theorem Inv.mono {t res : Topology} {comp : ℕ → ℕ → Prop} {k j : ℕ} {s : Search}
    (h : Inv t res comp k s) (hkj : k ≤ j) : Inv t res comp j s :=
  ⟨h.log, h.fields, fun e he => (h.bound e he).trans hkj⟩

namespace Setting

variable {t res : Topology} {comp : ℕ → ℕ → Prop} (hset : Setting t res comp) {k : ℕ}
  {s s' : Search}
include hset

/-- A part whose level is not in use yet has no marks. -/
theorem unmarked_of_bound (hinv : Inv t res comp k s) {a : ℕ} (ha : comp (k + 1) a) :
    (s.nodes a).marked = false ∧ ∀ l, t.Inc l a → (s.links l).marked = false := by
  have hlevel : ∀ {j : ℕ}, j ≤ k → ¬comp j a := by
    intro j hj hc
    have := hset.parts.one j (k + 1) a hc ha
    omega
  constructor
  · by_contra hm
    obtain ⟨j, r, he⟩ :=
      (hinv.fields.marked a (hset.parts.leaf _ a ha).2).mp (by simpa using hm)
    exact hlevel (hinv.bound _ he) (hinv.log.node j a r he).1
  · intro l hl
    by_contra hm
    obtain ⟨j, m, b, y, he⟩ := (hinv.fields.linkMarked l).mp (by simpa using hm)
    exact hlevel (hinv.bound _ he) (hinv.log.link_comp hset.parts he hl)

/-- A successful `find_mapping` for a node of an untouched part assigns the whole part. -/
theorem done_of_findMapping (hinv : Inv t res comp k s) {a : ℕ} (ha : comp (k + 1) a)
    (hex : s.Explores t s') (hm : (s'.nodes a).marked = true) : Done t comp (k + 1) s' := by
  intro b hb
  have hab := (hset.parts.conn _ a b ha).mp hb
  have hmb : (s'.nodes b).marked = true := by
    refine hex.reaches hab ?_ ?_ hm
    · intro n l hn hl
      simp [(hset.unmarked_of_bound hinv ((hset.parts.conn _ a n ha).mpr hn)).2 l hl]
    · intro n hn
      simp [(hset.unmarked_of_bound hinv ((hset.parts.conn _ a n ha).mpr hn)).1]
  exact ⟨hmb, hex.node b hmb (by simp [(hset.unmarked_of_bound hinv hb).1])⟩

theorem subsetAssign_spec {fuel : ℕ} {rl : List AssignInfo} (hrl : Reserved res rl)
    {lists : List (List AssignInfo)}
    (hlists : ∀ i al, lists[i]? = some al → Typed t al ∧ ∀ a, Users al a ↔ comp (k + 1 + i) a)
    (hinv : Inv t res comp k s) {ok : Bool}
    (h : subsetAssign t res fuel rl lists (k + 1) s = some (ok, s')) :
    (ok = false → Kept t res comp k s s') ∧
      (ok = true → Kept t res comp (k + lists.length) s s' ∧
        ∀ i < lists.length, Done t comp (k + 1 + i) s') := by
  induction lists generalizing k s s' ok with
  | nil =>
    cases h
    exact ⟨by simp, fun _ => ⟨⟨by simpa using hinv, fun _ he => he⟩, by simp⟩⟩
  | cons al rest ih =>
    obtain ⟨htyped, husers⟩ := hlists 0 al rfl
    rw [Nat.add_zero] at husers
    cases al with
    | nil => cases h
    | cons ai al =>
      obtain ⟨hne, htype⟩ := htyped ai List.mem_cons_self
      unfold subsetAssign at h
      split at h
      · cases h
        exact ⟨fun _ => ⟨hinv, fun _ he => he⟩, by simp⟩
      · cases h
      rename_i a as ri hnodes hri
      have ha : comp (k + 1) a := by
        refine (husers a).mp ⟨ai, List.mem_cons_self, ?_⟩
        rw [hnodes]
        exact List.mem_cons_self
      have htypea : (t.node a).type = ai.type := htype a (by rw [hnodes]; exact List.mem_cons_self)
      have hritype : ai.type = ri.type := by simpa using List.find?_some hri
      have hrimem := List.mem_of_find?_eq_some hri
      -- every try starts from the state the call was given, up to reserved marks
      let P : Search → Prop := Kept t res comp k s
      let M : Search → Prop := fun s₁ => Kept t res comp (k + 1) s s₁
      let F : Search → Prop := fun s₁ => Kept t res comp (k + 1) s s₁ ∧ Done t comp (k + 1) s₁
      have hfind : ∀ r ∈ ri.testbedNodes, ∀ s₁ ok₁ s₂, P s₁ →
          findMapping t res (k + 1) fuel s₁ a r = some (ok₁, s₂) →
          M s₂ ∧ (ok₁ = true → F s₂) := by
        intro r hr s₁ ok₁ s₂ hP hcall
        obtain ⟨hlt, hhost⟩ := hrl ri hrimem r hr
        have hfit : TypeFits t res a r := by
          rw [TypeFits, htypea, hritype]
          exact hhost.imp Eq.symm id
        obtain ⟨hkept, hok⟩ := hset.findMapping_spec fuel s₁ a r ok₁ s₂
          (hP.inv.mono (Nat.le_succ k)) ha hlt hfit hcall
        have hM : M s₂ := ⟨hkept.inv, fun e he => hkept.log e (hP.log e he)⟩
        refine ⟨hM, fun htrue => ⟨hM, ?_⟩⟩
        obtain ⟨hex, hm⟩ := hok htrue
        exact hset.done_of_findMapping hP.inv ha hex hm
      have hnext : ∀ s₁ ok₁ s₂, F s₁ →
          subsetAssign t res fuel rl rest (k + 1 + 1) s₁ = some (ok₁, s₂) →
          (ok₁ = false → M s₂) ∧ (ok₁ = true →
            Kept t res comp (k + (rest.length + 1)) s s₂ ∧
              ∀ i < rest.length + 1, Done t comp (k + 1 + i) s₂) := by
        intro s₁ ok₁ s₂ hF hcall
        have hrest : ∀ i al, rest[i]? = some al →
            Typed t al ∧ ∀ a, Users al a ↔ comp (k + 1 + 1 + i) a := by
          intro i al hi
          have := hlists (i + 1) al (by simpa using hi)
          rwa [show k + 1 + (i + 1) = k + 1 + 1 + i by omega] at this
        obtain ⟨hfalse, htrue⟩ := ih hrest hF.1.inv hcall
        refine ⟨fun hok => hF.1.trans (hfalse hok), fun hok => ?_⟩
        obtain ⟨hkept, hdone⟩ := htrue hok
        rw [show k + 1 + rest.length = k + (rest.length + 1) by omega] at hkept
        refine ⟨⟨hkept.inv, fun e he => hkept.log e (hF.1.log e he)⟩, ?_⟩
        intro i hi
        cases i with
        | zero =>
          exact hF.2.kept hset.parts hF.1.inv.fields hkept.inv.fields hkept.log
        | succ i =>
          have := hdone i (by omega)
          rwa [show k + 1 + 1 + i = k + 1 + (i + 1) by omega] at this
      have hclean : ∀ s₁, M s₁ → P (s₁.cleanUp t res (k + 1) rl (ai :: al)) := by
        intro s₁ hM
        obtain ⟨hinv₁, hlog₁⟩ := hset.inv_cleanUp rl hM.inv husers
        exact ⟨hinv₁, fun e he => hlog₁ e (hM.log e he) (hinv.bound e he)⟩
      have hstart : P s := ⟨hinv, fun _ he => he⟩
      exact tryNodes_rule hfind hnext hclean hstart h

end Setting

end OnlDaemons.Onldb
