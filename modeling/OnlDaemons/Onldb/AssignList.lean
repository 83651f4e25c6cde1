import Mathlib.Data.List.Sort
import OnlDaemons.Lib.Explore
import OnlDaemons.Onldb.Topology

/-!
# Assign lists

`fill_in_topology` splits the nodes of the user's topology into the subtopologies that are not
connected to each other, and each of them by type; the nodes of the reserved topology are
grouped by the type they were reserved as.

## Main definitions

- `buildAssignList` — the recursion over the links of a node
- `assignLists`, `reservedList` — the two loops of `fill_in_topology`
- `Subtopologies` — the assign lists are the connected parts of the topology
-/

namespace OnlDaemons.Onldb

open Lib

/-- `assign_info`: the nodes of one type. -/
structure AssignInfo where
  type : String
  userNodes : List ℕ := []
  testbedNodes : List ℕ := []
deriving DecidableEq

/-- `user_nodes.push_back` on the entry of the type, or a new entry for it. -/
def addUserNode (type : String) (hw : ℕ) : List AssignInfo → List AssignInfo
  | [] => [{ type, userNodes := [hw] }]
  | ai :: l =>
    if ai.type = type then { ai with userNodes := ai.userNodes ++ [hw] } :: l
    else ai :: addUserNode type hw l

/-- The marks of the nodes and the links, and the list being built. -/
structure Build where
  nodes : ℕ → Bool
  links : ℕ → Bool
  list : List AssignInfo

/-- The end of a link that is not `hw`; the source compares labels. -/
def Topology.otherEnd (t : Topology) (l hw : ℕ) : ℕ :=
  if (t.node (t.link l).end1.node).label = (t.node hw).label then (t.link l).end2.node
  else (t.link l).end1.node

/-- The loop of `build_assign_list` over the links of `hw`. -/
def followLinks (t : Topology) (build : Build → ℕ → Option Build) (hw : ℕ) :
    List ℕ → Build → Option Build
  | [], b => some b
  | l :: ls, b =>
    if b.links l then followLinks t build hw ls b
    else do
      let b ← build { b with links := Function.update b.links l true } (t.otherEnd l hw)
      followLinks t build hw ls b

/-- `build_assign_list`; the fuel bounds the depth of the recursion. -/
def buildAssignList (t : Topology) : ℕ → Build → ℕ → Option Build
  | 0, _, _ => none
  | fuel + 1, b, hw =>
    if b.nodes hw then some b
    else followLinks t (buildAssignList t fuel) hw (t.node hw).links
      { b with
        nodes := Function.update b.nodes hw true
        list := addUserNode (t.node hw).type hw b.list }

/-- `list::sort(req_sort_comp)`, a stable sort by the number of user nodes. -/
def reqSort (l : List AssignInfo) : List AssignInfo :=
  l.insertionSort (fun i j => i.userNodes.length ≤ j.userNodes.length)

/-- The loop of `fill_in_topology` that makes one list for each disconnected subtopology. -/
def assignLists (t : Topology) (fuel : ℕ) : List ℕ → Build → Option (List (List AssignInfo))
  | [], _ => some []
  | n :: ns, b =>
    if (t.node n).isParent || b.nodes n then assignLists t fuel ns b
    else do
      let b ← buildAssignList t fuel { b with list := [] } n
      let rest ← assignLists t fuel ns b
      some (reqSort b.list :: rest)

/-- `node_hosts_type(node)` and a virtual machine on it: the node was reserved as a virtual
machine. -/
def NodeResource.IsVm (n : NodeResource) : Prop := 0 < n.hostedType.length ∧ 0 < n.vmid

instance (n : NodeResource) : Decidable n.IsVm := inferInstanceAs (Decidable (_ ∧ _))

/-- The type a node of the reserved topology was reserved as. -/
def NodeResource.reservedType (n : NodeResource) : String :=
  if n.IsVm then n.hostedType else n.type

/-- `testbed_nodes.push_back` on the first entry the reserved node fits, or a new entry. -/
def addTestbedNode (n : NodeResource) (r : ℕ) : List AssignInfo → List AssignInfo
  | [] => [{ type := n.reservedType, testbedNodes := [r] }]
  | ai :: l =>
    if ai.type = n.type ∨ 0 < n.hostedType.length ∧ n.hostedType = ai.type ∧ 0 < n.vmid then
      { ai with testbedNodes := ai.testbedNodes ++ [r] } :: l
    else ai :: addTestbedNode n r l

/-- The loop of `fill_in_topology` over the nodes of the reserved topology. -/
def reservedList (res : Topology) : List ℕ → List AssignInfo → List AssignInfo
  | [], l => l
  | r :: rs, l =>
    if (res.node r).isParent then reservedList res rs l
    else reservedList res rs (addTestbedNode (res.node r) r l)

/-- The node is a user node of some entry. -/
def Users (l : List AssignInfo) (a : ℕ) : Prop := ∃ ai ∈ l, a ∈ ai.userNodes

/-- No entry is empty, and each holds nodes of its own type. -/
def Typed (t : Topology) (l : List AssignInfo) : Prop :=
  ∀ ai ∈ l, ai.userNodes ≠ [] ∧ ∀ a ∈ ai.userNodes, (t.node a).type = ai.type

theorem users_addUserNode (type : String) (hw a : ℕ) (l : List AssignInfo) :
    Users (addUserNode type hw l) a ↔ a = hw ∨ Users l a := by
  induction l with
  | nil => simp [addUserNode, Users]
  | cons ai l ih =>
    unfold addUserNode
    split
    · simp only [Users, List.exists_mem_cons_iff, List.mem_append, List.mem_singleton]
      tauto
    · simp only [Users, List.exists_mem_cons_iff] at ih ⊢
      rw [ih]
      tauto

theorem typed_addUserNode {t : Topology} {hw : ℕ} {l : List AssignInfo} (h : Typed t l) :
    Typed t (addUserNode (t.node hw).type hw l) := by
  induction l with
  | nil =>
    intro ai hai
    obtain rfl := List.mem_singleton.mp hai
    simp
  | cons ai l ih =>
    have htl : Typed t l := fun x hx => h x (List.mem_cons_of_mem _ hx)
    have hai := h ai List.mem_cons_self
    unfold addUserNode
    split
    · rename_i htype
      intro x hx
      rcases List.mem_cons.mp hx with rfl | hx
      · refine ⟨by simp, fun a ha => ?_⟩
        rcases List.mem_append.mp ha with ha | ha
        · exact hai.2 a ha
        · rw [List.mem_singleton.mp ha, htype]
      · exact htl x hx
    · intro x hx
      rcases List.mem_cons.mp hx with rfl | hx
      · exact hai
      · exact ih htl x hx

theorem mem_reqSort {l : List AssignInfo} {ai : AssignInfo} : ai ∈ reqSort l ↔ ai ∈ l :=
  (List.perm_insertionSort _ l).mem_iff

theorem users_reqSort {l : List AssignInfo} {a : ℕ} : Users (reqSort l) a ↔ Users l a := by
  simp only [Users, mem_reqSort]

theorem typed_reqSort {t : Topology} {l : List AssignInfo} (h : Typed t l) :
    Typed t (reqSort l) := fun ai hai => h ai (mem_reqSort.mp hai)

namespace Topology

variable {t : Topology}

/-- A link of a node joins it to the other end. -/
theorem inc_otherEnd {l hw : ℕ} (hl : t.Inc l hw) : t.Inc l (t.otherEnd l hw) := by
  unfold otherEnd
  split
  · exact ⟨hl.1, Or.inr rfl⟩
  · exact ⟨hl.1, Or.inl rfl⟩

theorem Wf.eq_or_eq_otherEnd (h : t.Wf) {l hw a : ℕ} (hl : t.Inc l hw) (ha : t.Inc l a) :
    a = hw ∨ a = t.otherEnd l hw := by
  have h1 : t.Inc l (t.link l).end1.node := ⟨hl.1, Or.inl rfl⟩
  unfold otherEnd
  split
  · rename_i heq
    have he := h.label_inj _ (h.ends l _ h1) _ (h.ends l _ hl) heq
    rcases ha.2 with h' | h'
    · exact Or.inl (by omega)
    · exact Or.inr h'.symm
  · rename_i hne
    rcases hl.2 with h' | h'
    · exact absurd (by rw [h']) hne
    · rcases ha.2 with h'' | h''
      · exact Or.inr h''.symm
      · exact Or.inl (by omega)

end Topology

/-- What a finished call of `build_assign_list` for `hw` did. -/
structure Built (t : Topology) (b b' : Build) (hw : ℕ) : Prop where
  explored : Explored t.Inc (b.nodes · = true) (b.links · = true) (b'.nodes · = true)
    (b'.links · = true)
  reach : ∀ a, b'.nodes a = true → ¬b.nodes a = true → Reach t.Inc hw a
  users : ∀ a, Users b'.list a ↔ Users b.list a ∨ b'.nodes a = true ∧ ¬b.nodes a = true
  typed : Typed t b.list → Typed t b'.list

namespace Built

variable {t : Topology} {b b₁ b' : Build} {hw : ℕ}

theorem refl : Built t b b hw where
  explored := Explored.refl
  reach _ h h' := absurd h h'
  users a := by tauto
  typed h := h

theorem trans (h : Built t b b₁ hw) (h' : Built t b₁ b' hw) : Built t b b' hw where
  explored := h.explored.trans h'.explored
  reach a ha hn := by
    by_cases h₁ : b₁.nodes a = true
    · exact h.reach a h₁ hn
    · exact h'.reach a ha h₁
  users a := by
    have hm := h.explored.nodes a
    have hm' := h'.explored.nodes a
    rw [h'.users, h.users]
    tauto
  typed ht := h'.typed (h.typed ht)

end Built

/-- The loop over the links, given that the recursive calls do what they should. -/
theorem followLinks_spec {t : Topology} (hwf : t.Wf) {build : Build → ℕ → Option Build}
    (hbuild : ∀ b b' hw, hw < t.nodes.length → build b hw = some b' →
      Built t b b' hw ∧ b'.nodes hw = true) {hw : ℕ} {ls : List ℕ} (hls : ∀ l ∈ ls, t.Inc l hw)
    {b b' : Build} (hb : b.nodes hw = true) (h : followLinks t build hw ls b = some b') :
    Built t b b' hw ∧ ∀ l ∈ ls, b'.links l = true := by
  induction ls generalizing b with
  | nil =>
    cases h
    exact ⟨Built.refl, by simp⟩
  | cons l ls ih =>
    have hl : t.Inc l hw := hls l List.mem_cons_self
    have hls' : ∀ l ∈ ls, t.Inc l hw := fun l h => hls l (List.mem_cons_of_mem _ h)
    unfold followLinks at h
    split at h
    · rename_i hmark
      obtain ⟨hbuilt, hrest⟩ := ih hls' hb h
      refine ⟨hbuilt, fun x hx => ?_⟩
      rcases List.mem_cons.mp hx with rfl | hx
      · exact hbuilt.explored.links _ hmark
      · exact hrest x hx
    · obtain ⟨b₁, hb₁, h⟩ := Option.bind_eq_some_iff.mp h
      have hother := Topology.inc_otherEnd hl
      obtain ⟨hrec, hend⟩ := hbuild _ _ _ (hwf.ends l _ hother) hb₁
      have hhw : b₁.nodes hw = true := hrec.explored.nodes hw hb
      have hl₁ : b₁.links l = true := hrec.explored.links l (by simp)
      have hstep : Built t b b₁ hw := by
        refine ⟨hrec.explored.follow (e := l) ?_ ?_, ?_, hrec.users, hrec.typed⟩
        · intro x
          by_cases hx : x = l <;> simp [hx]
        · intro a ha
          rcases hwf.eq_or_eq_otherEnd hl ha with rfl | rfl
          · exact hhw
          · exact hend
        · exact fun a ha hn => (Reach.link hl hother).trans (hrec.reach a ha hn)
      obtain ⟨hbuilt, hrest⟩ := ih hls' hhw h
      refine ⟨hstep.trans hbuilt, fun x hx => ?_⟩
      rcases List.mem_cons.mp hx with rfl | hx
      · exact hbuilt.explored.links _ hl₁
      · exact hrest x hx

theorem buildAssignList_spec {t : Topology} (hwf : t.Wf) {fuel : ℕ} {b b' : Build} {hw : ℕ}
    (hlt : hw < t.nodes.length) (h : buildAssignList t fuel b hw = some b') :
    Built t b b' hw ∧ b'.nodes hw = true := by
  induction fuel generalizing b b' hw with
  | zero => cases h
  | succ fuel ih =>
    unfold buildAssignList at h
    split at h
    · rename_i hmark
      cases h
      exact ⟨Built.refl, hmark⟩
    · rename_i hmark
      have hlinks : ∀ l ∈ (t.node hw).links, t.Inc l hw := fun l => (hwf.mem_links hw hlt l).mp
      obtain ⟨hbuilt, hall⟩ := followLinks_spec hwf (fun b b' hw hlt h => ih hlt h) hlinks
        (by simp) h
      have hm : ∀ n, Function.update b.nodes hw true n = true ↔ n = hw ∨ b.nodes n = true := by
        intro n
        by_cases hn : n = hw <;> simp [hn]
      have hhw : b'.nodes hw = true := hbuilt.explored.nodes hw (by simp)
      refine ⟨⟨?_, ?_, ?_, ?_⟩, hhw⟩
      · refine hbuilt.explored.visit (fun n hn => (hm n).mpr (Or.inr hn)) ?_
        intro n hn hnm l hl
        obtain rfl := ((hm n).mp hn).resolve_right hnm
        exact hall l ((hwf.mem_links n hlt l).mpr hl)
      · intro a ha hn
        by_cases hahw : a = hw
        · rw [hahw]
          exact Reach.refl hw
        · exact hbuilt.reach a ha (fun h' => ((hm a).mp h').elim hahw hn)
      · intro a
        rw [hbuilt.users, hm, users_addUserNode]
        by_cases hahw : a = hw
        · subst hahw
          simp [hhw, hmark]
        · simp [hahw]
      · exact fun ht => hbuilt.typed (typed_addUserNode ht)

/-- The lists are the connected parts of the topology, each once. -/
structure Subtopologies (t : Topology) (lists : List (List AssignInfo)) : Prop where
  root : ∀ al ∈ lists, Typed t al ∧ ∃ n < t.nodes.length, (t.node n).isParent = false ∧
    ∀ a, Users al a ↔ Reach t.Inc n a
  disjoint : lists.Pairwise (fun al al' => ∀ a, Users al a → ¬Users al' a)
  cover : ∀ a < t.nodes.length, (t.node a).isParent = false → ∃ al ∈ lists, Users al a

theorem assignLists_spec {t : Topology} (hwf : t.Wf) {fuel : ℕ} {ns : List ℕ} {b : Build}
    {lists : List (List AssignInfo)} (hns : ∀ n ∈ ns, n < t.nodes.length)
    (hb : Closed t.Inc (b.nodes · = true) (b.links · = true))
    (h : assignLists t fuel ns b = some lists) :
    (∀ al ∈ lists, Typed t al ∧ ∃ n < t.nodes.length, (t.node n).isParent = false ∧
      b.nodes n = false ∧ ∀ a, Users al a ↔ Reach t.Inc n a) ∧
    lists.Pairwise (fun al al' => ∀ a, Users al a → ¬Users al' a) ∧
    ∀ a ∈ ns, (t.node a).isParent = false → b.nodes a = true ∨ ∃ al ∈ lists, Users al a := by
  induction ns generalizing b lists with
  | nil =>
    cases h
    simp
  | cons n ns ih =>
    have hns' : ∀ n ∈ ns, n < t.nodes.length := fun x hx => hns x (List.mem_cons_of_mem _ hx)
    unfold assignLists at h
    split at h
    · rename_i hskip
      obtain ⟨hroot, hdis, hcov⟩ := ih hns' hb h
      refine ⟨hroot, hdis, fun a ha hp => ?_⟩
      rcases List.mem_cons.mp ha with rfl | ha
      · left
        simpa [hp] using hskip
      · exact hcov a ha hp
    · rename_i hskip
      obtain ⟨hparent, hmark⟩ : (t.node n).isParent = false ∧ b.nodes n = false := by
        simpa using hskip
      obtain ⟨b₁, hb₁, h⟩ := Option.bind_eq_some_iff.mp h
      obtain ⟨rest, hrest, h⟩ := Option.bind_eq_some_iff.mp h
      cases h
      have hn := hns n List.mem_cons_self
      obtain ⟨hbuilt, hn₁⟩ := buildAssignList_spec hwf hn hb₁
      have hc₁ := hbuilt.explored.closed hb
      -- the nodes newly marked are those connected to the root
      have husers : ∀ a, Users b₁.list a ↔ Reach t.Inc n a := by
        intro a
        rw [hbuilt.users]
        constructor
        · rintro (⟨ai, hai, -⟩ | ⟨ha, hna⟩)
          · cases hai
          · exact hbuilt.reach a ha hna
        · intro hr
          refine Or.inr ⟨hc₁.reach hr hn₁, fun ha => ?_⟩
          simpa [hmark] using hb.reach hr.symm ha
      obtain ⟨hroot, hdis, hcov⟩ := ih hns' hc₁ hrest
      refine ⟨?_, ?_, ?_⟩
      · intro al hal
        rcases List.mem_cons.mp hal with rfl | hal
        · refine ⟨typed_reqSort (hbuilt.typed (by simp [Typed])), n, hn, hparent, hmark, ?_⟩
          exact fun a => users_reqSort.trans (husers a)
        · obtain ⟨htyped, m, hm, hmp, hmm, hmr⟩ := hroot al hal
          refine ⟨htyped, m, hm, hmp, ?_, hmr⟩
          by_contra hne
          simp [hbuilt.explored.nodes m (by simpa using hne)] at hmm
      · refine List.pairwise_cons.mpr ⟨fun al hal a ha ha' => ?_, hdis⟩
        obtain ⟨-, m, -, -, hmm, hmr⟩ := hroot al hal
        have hra := (husers a).mp (users_reqSort.mp ha)
        have hmn : b₁.nodes m = true := hc₁.reach (hra.trans ((hmr a).mp ha').symm) hn₁
        simp [hmn] at hmm
      · intro a ha hp
        rcases List.mem_cons.mp ha with rfl | ha
        · exact Or.inr ⟨_, List.mem_cons_self, users_reqSort.mpr ((husers a).mpr (Reach.refl a))⟩
        · rcases hcov a ha hp with hm | ⟨al, hal, hu⟩
          · by_cases hma : b.nodes a = true
            · exact Or.inl hma
            · exact Or.inr ⟨_, List.mem_cons_self, users_reqSort.mpr
                ((hbuilt.users a).mpr (Or.inr ⟨hm, hma⟩))⟩
          · exact Or.inr ⟨al, List.mem_cons_of_mem _ hal, hu⟩

theorem subtopologies_assignLists {t : Topology} (hwf : t.Wf) {fuel : ℕ}
    {lists : List (List AssignInfo)}
    (h : assignLists t fuel (List.range t.nodes.length) ⟨fun _ => false, fun _ => false, []⟩ =
      some lists) : Subtopologies t lists := by
  obtain ⟨hroot, hdis, hcov⟩ := assignLists_spec hwf (by simp) ⟨by simp, by simp⟩ h
  refine ⟨fun al hal => ?_, hdis, fun a ha hp => ?_⟩
  · obtain ⟨htyped, n, hn, hp, -, hr⟩ := hroot al hal
    exact ⟨htyped, n, hn, hp, hr⟩
  · simpa using hcov a (by simpa using ha) hp

/-- The nodes of an entry of the reserved list are of its type or host it. -/
def Reserved (res : Topology) (l : List AssignInfo) : Prop :=
  ∀ ai ∈ l, ∀ r ∈ ai.testbedNodes, r < res.nodes.length ∧
    ((res.node r).type = ai.type ∨ (res.node r).hostedType = ai.type)

theorem reserved_addTestbedNode {res : Topology} {r : ℕ} (hr : r < res.nodes.length)
    {l : List AssignInfo} (h : Reserved res l) :
    Reserved res (addTestbedNode (res.node r) r l) := by
  induction l with
  | nil =>
    intro ai hai x hx
    obtain rfl := List.mem_singleton.mp hai
    obtain rfl := List.mem_singleton.mp hx
    refine ⟨hr, ?_⟩
    simp only [NodeResource.reservedType]
    split <;> simp
  | cons ai l ih =>
    have htl : Reserved res l := fun x hx => h x (List.mem_cons_of_mem _ hx)
    have hai := h ai List.mem_cons_self
    unfold addTestbedNode
    split
    · rename_i hfit
      intro y hy x hx
      rcases List.mem_cons.mp hy with rfl | hy
      · rcases List.mem_append.mp hx with hx | hx
        · exact hai x hx
        · obtain rfl := List.mem_singleton.mp hx
          exact ⟨hr, hfit.elim (fun h => Or.inl h.symm) (fun h => Or.inr h.2.1)⟩
      · exact htl y hy x hx
    · intro y hy x hx
      rcases List.mem_cons.mp hy with rfl | hy
      · exact hai x hx
      · exact ih htl y hy x hx

theorem reserved_reservedList {res : Topology} {rs : List ℕ} (hrs : ∀ r ∈ rs, r < res.nodes.length)
    {l : List AssignInfo} (h : Reserved res l) : Reserved res (reservedList res rs l) := by
  induction rs generalizing l with
  | nil => exact h
  | cons r rs ih =>
    have hrs' : ∀ r ∈ rs, r < res.nodes.length := fun x hx => hrs x (List.mem_cons_of_mem _ hx)
    unfold reservedList
    split
    · exact ih hrs' h
    · exact ih hrs' (reserved_addTestbedNode (hrs r List.mem_cons_self) h)

end OnlDaemons.Onldb
