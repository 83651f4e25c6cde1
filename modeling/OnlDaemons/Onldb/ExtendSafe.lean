import Mathlib.Tactic.Abel
import OnlDaemons.Lib.ProgramRules
import OnlDaemons.Onldb.ReadBack
import OnlDaemons.Onldb.StoredSchedule

/-!
# What an extension makes sure of

The loop over the nodes of the reservation asks for the other reservations of each node that
is not shared, and adds up what the rows of a shared host take, of every reservation that overlaps
the added time. The rows are subtracted from the capacity before anything is compared.

## Main definitions

- `CheckedNodes` — what the nodes that were tested so far are known to have
- `Store.ExtensionSafe` — the time that is added has no conflict

## Main result

- `extend_safe` — an extension that succeeds is safe, on the hosts whose rows fit
-/

namespace OnlDaemons.Onldb

open OnlDaemons.Lib LockProg

/-- The node is a virtual machine on the host that the loop looks at. -/
def TopNode.IsVmOn (hw : TopNode) (node : String) : Prop :=
  hw.hasParent = false ∧ hw.type ≠ "vgige" ∧ 0 < hw.vmid ∧ hw.node = node

instance (hw : TopNode) (node : String) : Decidable (hw.IsVmOn node) :=
  inferInstanceAs (Decidable (_ ∧ _))

/-- What the virtual machines of the reservation take of a host. -/
def ownOn (hws : List TopNode) (node : String) : Amount :=
  ((hws.filter (·.IsVmOn node)).map TopNode.amount).sum

theorem ownOn_snoc (hws : List TopNode) (hw : TopNode) (node : String) :
    ownOn (hws ++ [hw]) node = ownOn hws node + if hw.IsVmOn node then hw.amount else 0 := by
  unfold ownOn
  rw [List.filter_append,List.map_append,List.sum_append]
  split
  · rename_i h
    simp [h]
  · rename_i h
    simp [h]

/-- The clusters and nodes in `done` are free, and `vmNodes` has what is left of each host. -/
structure CheckedNodes (S : Store) (admin : Bool) (end_ newEnd : ℤ) (done : List TopNode)
    (vmNodes : List (String × Capacity)) : Prop where
  cluster : ∀ hw ∈ done, hw.hasParent = false → hw.type ≠ "vgige" → hw.vmid = 0 →
    hw.isParent = true → ∀ r ∈ S.overlapping (Store.hiddenNodes admin) end_ newEnd,
      ∀ row ∈ (S.tables r.rid).hwclusterschedule, row.cluster ≠ hw.node
  node : ∀ hw ∈ done, hw.hasParent = false → hw.type ≠ "vgige" → hw.vmid = 0 →
    hw.isParent = false → ∀ r ∈ S.overlapping (Store.hiddenNodes admin) end_ newEnd,
      ∀ row ∈ (S.tables r.rid).nodeschedule, row.node ≠ hw.node
  fresh : ∀ node, vmNodes.lookup node = none → ownOn done node = 0
  left : ∀ node c, vmNodes.lookup node = some c → S.RowsFit admin end_ newEnd node →
    c.amount + ownOn done node +
      S.amountOn node (S.overlapping (Store.hiddenHosts admin) end_ newEnd) =
        (S.capacity node).amount

/-- The added time has no conflict: a node that is not shared is free, and a host that is shared
is within its capacity if the rows that are counted are. -/
def Store.ExtensionSafe (S : Store) (admin : Bool) (r : Reservation) (newEnd : ℤ) : Prop :=
  ∀ node, S.Has r.rid node →
    (¬ S.SharedHost r.rid node → S.NodeFree (hiddenNodes admin) r newEnd node) ∧
    (S.SharedHost r.rid node → S.RowsFit admin r.end_ newEnd node →
      S.HostWithin (hiddenHosts admin) r newEnd node)

/-- The subtractions of a run: what is subtracted from what. -/
def subtractions (tr : List (LockEvent Query.Answer)) : List (Capacity × NodeUse) :=
  tr.filterMap fun
  | .answer (.subtract c use) _ => some (c,use)
  | _ => none

/-! ### The loop over the nodes -/

section loop

variable (S : Store) (username : String) (tr : List (LockEvent Query.Answer))

/-- The answers of the run, which agree with the store. -/
def Given (q : Query) (answer : q.Answer) : Prop := S.Answers q answer ∧ .answer q answer ∈ tr

/-- The rows fit on every host that the run looks at. -/
def Store.AllFit : Prop := ∀ node admin end_ newEnd answer,
  .answer (.vmUse node admin end_ newEnd) answer ∈ tr → S.RowsFit admin end_ newEnd node

/-- An update is only made for a safe extension, and no subtraction wraps if the rows fit on
every host that the run looks at. -/
def ExtendAsks : Query → Prop
  | .setEnd rid newEnd => ∃ r ∈ S.reservations, r.rid = rid ∧ r.user = username ∧ r.Live ∧
      ∃ admin, (admin = true → 0 < S.priv username) ∧ S.ExtensionSafe admin r newEnd
  | .subtract c use => S.AllFit tr → use.amount ≤ c.amount
  | _ => True

/-- An operation that succeeds has made the update. -/
def ExtendReturns (r : OnldbResp) : Prop :=
  r.result = 1 → ∃ rid newEnd, .answer (.setEnd rid newEnd) (.ok ()) ∈ tr

abbrev ExtendMeets (p : Op) : Prop :=
  p.Meets (Given S tr) (ExtendAsks S username tr) (ExtendReturns tr)

variable {S username tr}

theorem meets_unlockRet {result : ℤ} {msg : String} (h : result ≠ 1) :
    ExtendMeets S username tr (unlockRet result msg) :=
  fun he => absurd he h

theorem meets_placeVm {hw : TopNode} {c : Capacity} {vmNodes : List (String × Capacity)}
    {k : List (String × Capacity) → Op}
    (hk : hw.amount ≤ c.amount → ExtendMeets S username tr
      (k ((hw.node,c.sub ⟨hw.coreCapacity,hw.memCapacity⟩) :: vmNodes))) :
    ExtendMeets S username tr (placeVm hw c vmNodes k) := by
  unfold placeVm
  split
  · exact meets_unlockRet (by decide)
  · rename_i hroom
    rw [not_or,UInt32.not_lt,UInt32.not_lt] at hroom
    have hle : hw.amount ≤ c.amount :=
      ⟨UInt32.le_iff_toNat_le.1 hroom.1,UInt32.le_iff_toNat_le.1 hroom.2⟩
    exact ⟨fun _ => hle,fun _ _ => hk hle⟩

/-- The rows of a host are subtracted one by one. -/
theorem meets_rows {node : String} {admin : Bool} {end_ newEnd : ℤ} {uses : List NodeUse}
    {k : Capacity → Op} (hans : Given S tr (.vmUse node admin end_ newEnd) (.ok uses))
    (hk : ∀ c, (S.RowsFit admin end_ newEnd node →
      c.amount + S.amountOn node (S.overlapping (Store.hiddenHosts admin) end_ newEnd) =
        (S.capacity node).amount) → ExtendMeets S username tr (k c)) :
    ExtendMeets S username tr (forEach subtract uses (S.capacity node) k) := by
  have hsum : (uses.map NodeUse.amount).sum =
      S.amountOn node (S.overlapping (Store.hiddenHosts admin) end_ newEnd) := by
    have hperm : uses.Perm _ := hans.1
    rw [(hperm.map NodeUse.amount).sum_eq,List.map_map,Store.amountOn]
    congr 1
    refine List.map_congr_left fun row hrow => ?_
    obtain ⟨r,_,hr⟩ := List.mem_flatMap.1 hrow
    exact NodeRow.amount_use (S.amount_lt r.rid row (List.mem_filter.1 hr).1)
  refine Meets.forEach (fun done c => S.RowsFit admin end_ newEnd node →
    c.amount + (done.map NodeUse.amount).sum = (S.capacity node).amount) ?_ ?_ ?_
  · intro done use rest c k' hl hc hk'
    have hfits : S.RowsFit admin end_ newEnd node → use.amount ≤ c.amount := by
      intro hfit
      have htotal : (uses.map NodeUse.amount).sum ≤ _ := hsum ▸ (show S.amountOn node _ ≤ _ from hfit)
      rw [hl,List.map_append,List.sum_append,List.map_cons,List.sum_cons,← hc hfit] at htotal
      obtain ⟨h1,h2⟩ := Prod.le_def.1 htotal
      simp only [Prod.fst_add,Prod.snd_add] at h1 h2
      exact ⟨by omega,by omega⟩
    refine ⟨fun hall => hfits (hall node admin end_ newEnd _ hans.2),fun _ _ => hk' _ ?_⟩
    intro hfit
    rw [List.map_append,List.sum_append,List.map_singleton,List.sum_singleton,← hc hfit,
      ← Capacity.amount_sub (hfits hfit)]
    abel
  · intro c hc
    exact hk c fun hfit => hsum ▸ hc hfit
  · intro _
    simp

/-- A node that the loop passes over. -/
theorem CheckedNodes.skip {admin : Bool} {end_ newEnd : ℤ} {done : List TopNode}
    {vmNodes : List (String × Capacity)} (h : CheckedNodes S admin end_ newEnd done vmNodes)
    {hw : TopNode} (hskip : hw.hasParent = true ∨ hw.type = "vgige") :
    CheckedNodes S admin end_ newEnd (done ++ [hw]) vmNodes := by
  have hown : ∀ node, ownOn (done ++ [hw]) node = ownOn done node := by
    intro node
    have hno : ¬ hw.IsVmOn node := by
      rintro ⟨hp,ht,_⟩
      rcases hskip with hs | hs
      · rw [hs] at hp
        cases hp
      · exact ht hs
    rw [ownOn_snoc,if_neg hno,add_zero]
  constructor
  · intro x hx hp ht
    rcases List.mem_append.1 hx with hx | hx
    · exact h.cluster x hx hp ht
    · obtain rfl := List.mem_singleton.1 hx
      rcases hskip with hs | hs
      · rw [hs] at hp
        cases hp
      · exact absurd hs ht
  · intro x hx hp ht
    rcases List.mem_append.1 hx with hx | hx
    · exact h.node x hx hp ht
    · obtain rfl := List.mem_singleton.1 hx
      rcases hskip with hs | hs
      · rw [hs] at hp
        cases hp
      · exact absurd hs ht
  · intro node hnode
    rw [hown]
    exact h.fresh node hnode
  · intro node c hnode
    rw [hown]
    exact h.left node c hnode

/-- A cluster or a node that the reservation has for itself. -/
theorem CheckedNodes.whole {admin : Bool} {end_ newEnd : ℤ} {done : List TopNode}
    {vmNodes : List (String × Capacity)} (h : CheckedNodes S admin end_ newEnd done vmNodes)
    {hw : TopNode} (hvmid : hw.vmid = 0)
    (hcluster : hw.isParent = true → ∀ r ∈ S.overlapping (Store.hiddenNodes admin) end_ newEnd,
      ∀ row ∈ (S.tables r.rid).hwclusterschedule, row.cluster ≠ hw.node)
    (hnode : hw.isParent = false → ∀ r ∈ S.overlapping (Store.hiddenNodes admin) end_ newEnd,
      ∀ row ∈ (S.tables r.rid).nodeschedule, row.node ≠ hw.node) :
    CheckedNodes S admin end_ newEnd (done ++ [hw]) vmNodes := by
  have hown : ∀ node, ownOn (done ++ [hw]) node = ownOn done node := by
    intro node
    have hno : ¬ hw.IsVmOn node := fun hv => absurd hv.2.2.1 (by omega)
    rw [ownOn_snoc,if_neg hno,add_zero]
  constructor
  · intro x hx hp ht hv
    rcases List.mem_append.1 hx with hx | hx
    · exact h.cluster x hx hp ht hv
    · obtain rfl := List.mem_singleton.1 hx
      exact hcluster
  · intro x hx hp ht hv
    rcases List.mem_append.1 hx with hx | hx
    · exact h.node x hx hp ht hv
    · obtain rfl := List.mem_singleton.1 hx
      exact hnode
  · intro node hnode
    rw [hown]
    exact h.fresh node hnode
  · intro node c hnode
    rw [hown]
    exact h.left node c hnode

/-- A virtual machine, with what was left of its host before. -/
theorem CheckedNodes.vm {admin : Bool} {end_ newEnd : ℤ} {done : List TopNode}
    {vmNodes : List (String × Capacity)} (h : CheckedNodes S admin end_ newEnd done vmNodes)
    {hw : TopNode} (hvm : hw.IsVmOn hw.node) {c : Capacity}
    (hc : S.RowsFit admin end_ newEnd hw.node → c.amount + ownOn done hw.node +
      S.amountOn hw.node (S.overlapping (Store.hiddenHosts admin) end_ newEnd) =
        (S.capacity hw.node).amount)
    (hroom : hw.amount ≤ c.amount) :
    CheckedNodes S admin end_ newEnd (done ++ [hw])
      ((hw.node,c.sub ⟨hw.coreCapacity,hw.memCapacity⟩) :: vmNodes) := by
  have hother : ∀ node, node ≠ hw.node → ownOn (done ++ [hw]) node = ownOn done node := by
    intro node hne
    have hno : ¬ hw.IsVmOn node := fun hv => hne hv.2.2.2.symm
    rw [ownOn_snoc,if_neg hno,add_zero]
  have hlook : ∀ node, node ≠ hw.node →
      ((hw.node,c.sub ⟨hw.coreCapacity,hw.memCapacity⟩) :: vmNodes).lookup node =
        vmNodes.lookup node := by
    intro node hne
    rw [List.lookup_cons,beq_false_of_ne hne]
  constructor
  · intro x hx hp ht hv
    rcases List.mem_append.1 hx with hx | hx
    · exact h.cluster x hx hp ht hv
    · obtain rfl := List.mem_singleton.1 hx
      exact absurd hv (by have := hvm.2.2.1; omega)
  · intro x hx hp ht hv
    rcases List.mem_append.1 hx with hx | hx
    · exact h.node x hx hp ht hv
    · obtain rfl := List.mem_singleton.1 hx
      exact absurd hv (by have := hvm.2.2.1; omega)
  · intro node hnode
    by_cases hne : node = hw.node
    · subst hne
      simp at hnode
    · rw [hlook node hne] at hnode
      rw [hother node hne]
      exact h.fresh node hnode
  · intro node d hnode hfit
    by_cases hne : node = hw.node
    · subst hne
      rw [List.lookup_cons,beq_self_eq_true] at hnode
      obtain rfl := Option.some.inj hnode
      rw [ownOn_snoc,if_pos hvm,← hc hfit,← Capacity.amount_sub
        (show NodeUse.amount ⟨hw.coreCapacity,hw.memCapacity⟩ ≤ c.amount from hroom)]
      show _ + (_ + hw.amount) + _ = _ + hw.amount + _ + _
      abel
    · rw [hlook node hne] at hnode
      rw [hother node hne]
      exact h.left node d hnode hfit

theorem meets_noReservation {rids : Rows ℕ} {k : Op} (hk : rids = .ok [] → ExtendMeets S username tr k) :
    ExtendMeets S username tr (noReservation rids k) := by
  rcases rids with er | (_ | ⟨rid,rest⟩)
  · exact meets_unlockRet (by decide)
  · exact hk rfl
  · exact meets_unlockRet (by decide)

theorem meets_checkNode {admin : Bool} {end_ newEnd : ℤ} {done : List TopNode} {hw : TopNode}
    {vmNodes : List (String × Capacity)} {k : List (String × Capacity) → Op}
    (h : CheckedNodes S admin end_ newEnd done vmNodes)
    (hhost : hw.IsVmOn hw.node → fillNodeInfo S.types hw.type = S.capacity hw.node)
    (hk : ∀ vmNodes, CheckedNodes S admin end_ newEnd (done ++ [hw]) vmNodes →
      ExtendMeets S username tr (k vmNodes)) :
    ExtendMeets S username tr (checkNode admin S.types end_ newEnd hw vmNodes k) := by
  unfold checkNode
  split
  · rename_i hp
    exact hk _ (h.skip (.inl hp))
  rename_i hp
  split
  · rename_i ht
    exact hk _ (h.skip (.inr ht))
  rename_i ht
  split
  · rename_i hv
    have hvm : hw.IsVmOn hw.node := ⟨by simpa using hp,ht,hv,rfl⟩
    split
    · rename_i c hc
      exact meets_placeVm fun hroom => hk _ (h.vm hvm (h.left _ _ hc) hroom)
    · rename_i hnone
      refine Meets.ask trivial fun answer hans => ?_
      rcases answer with er | uses
      · exact meets_unlockRet (by decide)
      rw [hhost hvm]
      refine meets_rows hans fun c hc => meets_placeVm fun hroom => hk _ (h.vm hvm ?_ hroom)
      intro hfit
      rw [h.fresh _ hnone,add_zero]
      exact hc hfit
  rename_i hv
  have hv : hw.vmid = 0 := by omega
  -- the answer has no reservation at all
  split
  · rename_i hpar
    refine ⟨trivial,fun answer hans => meets_noReservation fun he => hk _ (h.whole hv ?_ ?_)⟩
    · rintro - r hr row hrow hn
      subst he
      exact absurd ((hans.1 r.rid).2 ⟨r,hr,rfl,row,hrow,hn⟩) List.not_mem_nil
    · intro hno
      rw [hpar] at hno
      cases hno
  · rename_i hpar
    refine ⟨trivial,fun answer hans => meets_noReservation fun he => hk _ (h.whole hv ?_ ?_)⟩
    · intro hyes
      exact absurd hyes hpar
    · rintro - r hr row hrow hn
      subst he
      exact absurd ((hans.1 r.rid).2 ⟨r,hr,rfl,row,hrow,hn⟩) List.not_mem_nil

end loop

/-! ### What was tested is what the reservation has -/

section safe

variable {S : Store} {u : Uninitialised} {rid : ℕ} {t : Topology}

theorem mem_select {α : Type} {db : Database} {l : List α} {x : α} : x ∈ db.select l ↔ x ∈ l :=
  (arrange_perm (db.order_perm l.length)).mem_iff

/-- A node that is read comes from a row: of a cluster, of a vswitch or of a node. -/
theorem mem_tops {db : Database} {tb : Tables} {hw : TopNode} (h : hw ∈ db.tops tb) :
    (∃ row ∈ tb.hwclusterschedule, clusterTop db row = some hw) ∨ (∃ v, hw = vswitchTop v) ∨
      ∃ row ∈ tb.nodeschedule, nodeTop db row = some hw := by
  rw [Database.tops,List.mem_append,List.mem_append] at h
  rcases h with (h | h) | h
  · obtain ⟨row,hrow,he⟩ := List.mem_filterMap.1 h
    exact .inl ⟨row,mem_select.1 hrow,he⟩
  · obtain ⟨v,_,he⟩ := List.mem_map.1 h
    exact .inr (.inl ⟨v,he.symm⟩)
  · obtain ⟨row,hrow,he⟩ := List.mem_filterMap.1 h
    exact .inr (.inr ⟨row,mem_select.1 hrow,he⟩)

/-- The capacity that the loop starts a host with. -/
theorem capacity_of_isVmOn (h : getTopology S.db u (S.tables rid) = .ok t) {hw : TopNode}
    (hhw : hw ∈ t.nodes.map NodeResource.topNode) (hvm : hw.IsVmOn hw.node) :
    fillNodeInfo S.types hw.type = S.capacity hw.node := by
  obtain ⟨parents,hread,-⟩ := getTopology_tops h
  obtain ⟨n,hn,rfl⟩ := List.mem_map.1 hhw
  have hmem : n.topNode.alone ∈ S.db.tops (S.tables rid) := hread.tops ▸ List.mem_map_of_mem hn
  obtain ⟨-,htype,hvmid,-⟩ := hvm
  obtain ⟨row,-,he⟩ | ⟨v,he⟩ | ⟨row,-,he⟩ := mem_tops hmem
  · obtain ⟨e,-,he⟩ := Option.map_eq_some_iff.1 he
    have hzero : 0 = n.topNode.vmid := congrArg TopNode.vmid he
    omega
  · exact absurd (congrArg TopNode.type he) htype
  · obtain ⟨e,hnode,he⟩ := Option.map_eq_some_iff.1 he
    have hname : row.node = n.topNode.node := congrArg TopNode.node he
    have htid : Topology.lowercase e.tid = n.topNode.type := congrArg TopNode.type he
    rw [Store.capacity,← hname,hnode,← htid]

/-- The virtual machines of a shared host are counted in full. -/
theorem ownOn_tops (h : getTopology S.db u (S.tables rid) = .ok t) {node : String}
    (hhas : (S.db.nodes node).isSome) (hshared : S.SharedHost rid node) :
    ownOn (t.nodes.map NodeResource.topNode) node =
      (((S.tables rid).nodeschedule.filter (·.node = node)).map NodeRow.amount).sum := by
  obtain ⟨parents,hread,-⟩ := getTopology_tops h
  obtain ⟨e,he⟩ := Option.isSome_iff_exists.1 hhas
  obtain ⟨hvm,hroot⟩ := hshared
  have halone : ownOn (t.nodes.map NodeResource.topNode) node =
      ownOn (S.db.tops (S.tables rid)) node := by
    rw [← hread.tops]
    unfold ownOn
    rw [List.filter_map,List.map_map,List.filter_map,List.map_map]
    rfl
  have hcluster : ∀ rows : List ClusterRow,
      (rows.filterMap (clusterTop S.db)).filter (·.IsVmOn node) = [] := by
    intro rows
    refine List.filter_eq_nil_iff.2 fun hw hhw => ?_
    obtain ⟨row,-,hrow⟩ := List.mem_filterMap.1 hhw
    obtain ⟨e,-,rfl⟩ := Option.map_eq_some_iff.1 hrow
    simp [TopNode.IsVmOn]
  have hvswitch : ∀ vs : List ℕ, (vs.map vswitchTop).filter (·.IsVmOn node) = [] := by
    intro vs
    refine List.filter_eq_nil_iff.2 fun hw hhw => ?_
    obtain ⟨v,-,rfl⟩ := List.mem_map.1 hhw
    simp [TopNode.IsVmOn,vswitchTop]
  have hrows : ∀ rows : List NodeRow, (∀ row ∈ rows, row ∈ (S.tables rid).nodeschedule) →
      ownOn (rows.filterMap (nodeTop S.db)) node =
        ((rows.filter (·.node = node)).map NodeRow.amount).sum := by
    intro rows hsub
    induction rows with
    | nil => rfl
    | cons row rows ih =>
      have hrow := hsub row List.mem_cons_self
      have ih := ih fun row hr => hsub row (List.mem_cons_of_mem _ hr)
      unfold ownOn at ih ⊢
      by_cases hn : row.node = node
      · subst hn
        have htype : Topology.lowercase e.tid ≠ "vgige" := S.db.nodes_type _ _ he
        have hvmid := hvm row hrow rfl
        have hamount := NodeRow.amount_use (S.amount_lt rid row hrow)
        rw [List.filterMap_cons_some (by rw [nodeTop,he]; rfl),List.filter_cons_of_pos,
          List.filter_cons_of_pos (by simp),List.map_cons,List.sum_cons,List.map_cons,
          List.sum_cons,ih,← hamount]
        · rfl
        · simpa [TopNode.IsVmOn,hroot e he] using ⟨htype,hvmid⟩
      · rw [List.filter_cons_of_neg (by simpa using hn)]
        cases hnode : S.db.nodes row.node with
        | none => rw [List.filterMap_cons_none (by rw [nodeTop,hnode]; rfl),ih]
        | some e' =>
          rw [List.filterMap_cons_some (by rw [nodeTop,hnode]; rfl),List.filter_cons_of_neg,ih]
          simp [TopNode.IsVmOn,hn]
  rw [halone]
  unfold ownOn at hrows ⊢
  rw [Database.tops,List.filter_append,List.filter_append,hcluster,hvswitch,List.nil_append,
    List.nil_append,hrows _ fun row hr => mem_select.1 hr]
  exact (((arrange_perm (S.db.order_perm _)).filter _).map _).sum_eq

theorem Store.amountOn_cons (node : String) (r : Reservation) (rs : List Reservation) :
    S.amountOn node (r :: rs) = S.amountOn node [r] + S.amountOn node rs := by
  simp [amountOn,rowsOn]

theorem Store.amountOn_rid {node : String} {r r' : Reservation} (h : r.rid = r'.rid) :
    S.amountOn node [r] = S.amountOn node [r'] := by
  simp [amountOn,rowsOn,h]

/-- The reservations at one time are the extended one and some that overlap the added time. -/
theorem Store.amountOn_activeAt_le {node : String} {hidden : List String} {r : Reservation}
    {newEnd time : ℤ} (hend : r.end_ ≤ time) (hnew : time < newEnd) :
    S.amountOn node (activeAt hidden r.rid (S.extended r.rid newEnd) time) ≤
      S.amountOn node [r] + S.amountOn node (S.overlapping hidden r.end_ newEnd) := by
  have key : ∀ rs : List Reservation, (rs.map (·.rid)).Nodup →
      S.amountOn node (activeAt hidden r.rid (rs.map fun r' =>
        if r'.rid = r.rid then { r' with end_ := newEnd } else r') time) ≤
      (if r.rid ∈ rs.map (·.rid) then S.amountOn node [r] else 0) +
        S.amountOn node (rs.filter fun r' =>
          r'.Live ∧ r'.user ∉ hidden ∧ r'.begin ≤ newEnd ∧ r.end_ < r'.end_) := by
    intro rs
    induction rs with
    | nil =>
      intro _
      exact Prod.mk_le_mk.2 ⟨le_rfl,le_rfl⟩
    | cons r' rs ih =>
      intro hnodup
      rw [List.map_cons,List.nodup_cons] at hnodup
      have ih := ih hnodup.2
      unfold activeAt at ih ⊢
      rw [List.map_cons]
      by_cases hr : r'.rid = r.rid
      · rw [if_neg (hr ▸ hnodup.1),zero_add] at ih
        rw [if_pos hr,List.map_cons,if_pos (hr ▸ List.mem_cons_self)]
        have hmore : ∀ rs' : List Reservation, S.amountOn node rs' ≤ S.amountOn node (r' :: rs') := by
          intro rs'
          rw [S.amountOn_cons node r' rs']
          exact le_add_self
        refine le_trans ?_ (add_le_add_right (le_trans ih ?_) (S.amountOn node [r]))
        · rw [List.filter_cons]
          split
          · rw [S.amountOn_cons]
            exact add_le_add_left (le_of_eq (S.amountOn_rid hr)) _
          · exact le_add_self
        · rw [List.filter_cons]
          split
          · exact hmore _
          · exact le_rfl
      · have hmem : (r.rid ∈ (r' :: rs).map (·.rid)) = (r.rid ∈ rs.map (·.rid)) := by
          simp [List.map_cons,Ne.symm hr]
        simp only [if_neg hr,hmem]
        rw [List.filter_cons,List.filter_cons]
        split
        · rename_i hact
          have hover : r'.Live ∧ r'.user ∉ hidden ∧ r'.begin ≤ newEnd ∧ r.end_ < r'.end_ := by
            obtain ⟨hlive,huser,hb,he⟩ := of_decide_eq_true hact
            exact ⟨hlive,huser.resolve_left hr,by omega,by omega⟩
          rw [if_pos (decide_eq_true hover),S.amountOn_cons node r' (List.filter _ (List.map _ rs)),
            S.amountOn_cons node r' (List.filter _ rs),add_left_comm]
          exact add_le_add_right ih _
        · refine le_trans ih (add_le_add_right ?_ _)
          split
          · rw [S.amountOn_cons]
            exact le_add_self
          · exact le_rfl
  refine (key S.reservations S.rid_nodup).trans (add_le_add_left ?_ _)
  split
  · exact le_rfl
  · exact Prod.mk_le_mk.2 ⟨Nat.zero_le _,Nat.zero_le _⟩

/-- A reservation that passed the tests can be extended without a conflict. -/
theorem CheckedNodes.safe {admin : Bool} {r : Reservation} {newEnd : ℤ}
    {vmNodes : List (String × Capacity)} (h : getTopology S.db u (S.tables r.rid) = .ok t)
    (hc : CheckedNodes S admin r.end_ newEnd (t.nodes.map NodeResource.topNode) vmNodes) :
    S.ExtensionSafe admin r newEnd := by
  obtain ⟨parents,hread,hparents⟩ := getTopology_tops h
  rintro node ⟨⟨row,hrow,rfl⟩,hnode⟩
  obtain ⟨e,he⟩ := Option.isSome_iff_exists.1 hnode
  refine ⟨fun hwhole => ?_,fun hshared hfit time hend hnew => ?_⟩
  · -- no reservation that overlaps has the node
    intro r' hr' hlive huser hother hbegin hlast
    have hover : r' ∈ S.overlapping (Store.hiddenNodes admin) r.end_ newEnd :=
      List.mem_filter.2 ⟨hr',decide_eq_true ⟨hlive,huser,by omega,hlast⟩⟩
    rintro ⟨⟨row',hrow',hsame⟩,-⟩
    cases hcl : e.cluster with
    | some c =>
      -- the cluster was read as a parent, and is tested in place of its node
      have hmem : c ∈ parents := by
        refine (hparents c).2 (List.mem_filterMap.2 ⟨row,mem_select.2 hrow,?_⟩)
        rw [he]
        exact hcl
      obtain ⟨n,hn,rfl,hpar⟩ := hread.parent c hmem
      obtain ⟨hkey,hisSome⟩ := S.cluster_key _ _ _ he hcl
      have htops : n.topNode.alone ∈ S.db.tops (S.tables r.rid) :=
        hread.tops ▸ List.mem_map_of_mem hn
      obtain ⟨row'',hrow'',hcluster⟩ := S.cluster_row r'.rid row' hrow' e _ (hsame ▸ he) hcl
      obtain ⟨crow,-,hcrow⟩ | ⟨v,hv⟩ | ⟨nrow,-,hnrow⟩ := mem_tops htops
      · obtain ⟨ce,hce,hcrow⟩ := Option.map_eq_some_iff.1 hcrow
        have hroot : false = n.topNode.hasParent := congrArg TopNode.hasParent hcrow
        have hzero : 0 = n.topNode.vmid := congrArg TopNode.vmid hcrow
        have htype : Topology.lowercase ce.tid = n.topNode.type := congrArg TopNode.type hcrow
        exact hc.cluster _ (List.mem_map_of_mem hn) hroot.symm
          (htype ▸ S.db.hwclusters_type _ _ hce) hzero.symm hpar r' hover row'' hrow'' hcluster
      · have hname : n.topNode.node = "vgige" ++ toString v := congrArg TopNode.node hv
        have hname' : n.node = "vgige" ++ toString v := hname
        rw [hname',S.db.hwclusters_name v] at hisSome
        cases hisSome
      · obtain ⟨ne,hne,hnrow⟩ := Option.map_eq_some_iff.1 hnrow
        have hname : nrow.node = n.node := congrArg TopNode.node hnrow
        rw [hname,hkey] at hne
        cases hne
    | none =>
      -- some row has the node as a whole
      have hex : ∃ row₀ ∈ (S.tables r.rid).nodeschedule, row₀.node = row.node ∧ row₀.vmid = 0 := by
        by_contra hno
        refine hwhole ⟨fun row₀ hrow₀ hname => ?_,fun e' he' => ?_⟩
        · by_contra hv
          exact hno ⟨row₀,hrow₀,hname,by omega⟩
        · rw [he] at he'
          cases he'
          exact hcl
      obtain ⟨row₀,hrow₀,hname₀,hvmid₀⟩ := hex
      have htop : nodeTop S.db row₀ = some ⟨Topology.lowercase e.tid,"",row₀.node,row₀.fixed,
          e.cluster.isSome,false,row₀.vmid,.ofNat row₀.cores,.ofNat row₀.memory⟩ := by
        rw [nodeTop,hname₀,he]
        rfl
      have htops : _ ∈ S.db.tops (S.tables r.rid) :=
        List.mem_append_right _ (List.mem_filterMap.2 ⟨row₀,mem_select.2 hrow₀,htop⟩)
      rw [← hread.tops] at htops
      obtain ⟨n,hn,hsame'⟩ := List.mem_map.1 htops
      have hroot : n.topNode.hasParent = false :=
        (congrArg TopNode.hasParent hsame').trans (by rw [hcl]; rfl)
      have htype : n.topNode.type = Topology.lowercase e.tid := congrArg TopNode.type hsame'
      have hname : n.topNode.node = row₀.node := congrArg TopNode.node hsame'
      have hvmid : n.topNode.vmid = row₀.vmid := congrArg TopNode.vmid hsame'
      -- a node is not the parent of another
      have hleaf : n.topNode.isParent = false := by
        by_contra hpar
        have hmem := hread.name n hn (show n.topNode.isParent = true by simpa using hpar)
        obtain ⟨row₁,-,hrow₁⟩ := List.mem_filterMap.1 ((hparents _).1 hmem)
        obtain ⟨e₁,he₁,hcl₁⟩ := Option.bind_eq_some_iff.1 hrow₁
        have hkey := (S.cluster_key _ _ _ he₁ hcl₁).1
        rw [show n.node = row.node from hname.trans hname₀,he] at hkey
        cases hkey
      exact hc.node _ (List.mem_map_of_mem hn) hroot (htype.symm ▸ S.db.nodes_type _ _ he)
        (hvmid.trans hvmid₀) hleaf r' hover row' hrow' (hsame.trans (hname.trans hname₀).symm)
  · have hown : S.amountOn row.node [r] = ownOn (t.nodes.map NodeResource.topNode) row.node := by
      rw [ownOn_tops h hnode hshared,Store.amountOn,Store.rowsOn,List.flatMap_singleton]
    refine (S.amountOn_activeAt_le hend hnew).trans ?_
    rw [hown]
    cases hlook : vmNodes.lookup row.node with
    | none =>
      rw [hc.fresh _ hlook,zero_add]
      exact hfit
    | some c =>
      rw [← hc.left _ _ hlook hfit,add_assoc]
      exact le_add_self

end safe

/-! ### The whole operation -/

section run

variable {S : Store} {clock : Clock} {username : String} {tr : List (LockEvent Query.Answer)}

theorem meets_extendChecked {admin sysadmin : Bool} {r : Reservation} {newEnd : ℤ}
    {u : Uninitialised} {t : Topology} (h : getTopology S.db u (S.tables r.rid) = .ok t)
    (hr : r ∈ S.reservations) (hlive : r.Live) (huser : r.user = username)
    (hadmin : admin = true → 0 < S.priv username) :
    ExtendMeets S username tr (extendChecked username admin sysadmin S.types
      (t.nodes.map NodeResource.topNode) r.rid r.end_ newEnd) := by
  unfold extendChecked
  refine Meets.ask trivial fun answer _ => ?_
  rcases answer with er | (_ | ⟨rt,rest⟩)
  · exact meets_unlockRet (by decide)
  · refine Meets.forEach (CheckedNodes S admin r.end_ newEnd) ?_ ?_ ?_
    · intro done hw rest vmNodes k hl hc hk
      refine meets_checkNode hc (fun hvm => ?_) hk
      exact capacity_of_isVmOn h (hl ▸ List.mem_append_right _ List.mem_cons_self) hvm
    · intro vmNodes hc
      refine Meets.ask trivial fun bwr _ => ?_
      split
      · exact meets_unlockRet (by omega)
      refine Meets.ask ⟨r,hr,rfl,huser,hlive,admin,hadmin,hc.safe h⟩ fun answer hans => ?_
      rcases answer with er | ⟨⟩
      · exact meets_unlockRet (by decide)
      · exact fun _ => ⟨r.rid,newEnd,hans.2⟩
    · exact ⟨nofun,nofun,fun _ _ => rfl,nofun⟩
  · exact meets_unlockRet (by decide)

theorem meets_extendFound {r : Reservation} {current min : ℤ} (hr : r ∈ S.reservations)
    (hlive : r.Live) (huser : r.user = username) :
    ExtendMeets S username tr (extendFound clock username current min r) := by
  unfold extendFound
  refine Meets.ask trivial fun answer hans => ?_
  split
  · exact meets_unlockRet (by omega)
  rename_i hok
  obtain ⟨u,t,ht,hnodes⟩ := hans.1 (by omega)
  rw [hnodes]
  refine Meets.ask trivial fun types htypes => ?_
  rcases types with er | types
  · trivial
  have htypes : types = S.types := htypes.1
  subst htypes
  refine Meets.forEach_true (fun ti s k hk => ?_) (fun _ => ?_) ()
  · refine Meets.ask trivial fun answer _ => ?_
    rcases answer with er | (_ | ⟨tpv,rest⟩)
    · exact meets_unlockRet (by decide)
    · exact meets_unlockRet (by decide)
    simp only
    split
    · exact meets_unlockRet (by decide)
    refine Meets.forEach_true (fun week s k hk => ?_) hk ()
    refine Meets.ask trivial fun answer _ => ?_
    rcases answer with er | user
    · exact meets_unlockRet (by decide)
    refine Meets.ask trivial fun answer _ => ?_
    rcases answer with er | grp
    · exact meets_unlockRet (by decide)
    simp only
    split
    · exact meets_unlockRet (by decide)
    · exact hk ()
  refine Meets.ask trivial fun ra hra => ?_
  split
  · rename_i hone
    have hpriv : 2 < S.priv username := hra.1 hone
    exact meets_extendChecked ht hr hlive huser fun _ => by omega
  refine Meets.ask trivial fun ra hra => ?_
  split
  · exact meets_unlockRet (by omega)
  · exact meets_extendChecked ht hr hlive huser fun hone => hra.1 (by simpa using hone)

theorem meets_extendCurrentReservation (min : ℤ) :
    ExtendMeets S username tr (extendCurrentReservation clock username min) := by
  unfold extendCurrentReservation
  refine Meets.ask trivial fun answer _ => ?_
  rcases answer with er | (_ | ⟨divisor,rest⟩)
  · exact fun he => absurd he (by simp)
  · exact fun he => absurd he (by simp)
  refine Meets.ask trivial fun now _ => ?_
  unfold discretizeTime
  simp only
  split
  · trivial
  split
  · exact fun he => absurd he (by simp)
  refine ⟨?_,fun he => absurd he (by simp)⟩
  refine Meets.ask trivial fun answer hans => ?_
  rcases answer with er | (_ | ⟨r,rest⟩)
  · exact meets_unlockRet (by decide)
  · exact meets_unlockRet (by decide)
  · obtain ⟨hr,hlive,huser,-⟩ := hans.1 r List.mem_cons_self
    exact meets_extendFound hr hlive huser

/-- An extension that succeeds is safe, and no subtraction wraps if the rows fit on every host
that is looked at. -/
theorem extend_safe (S : Store) (clock : Clock) (username : String) (min : ℤ)
    (tr : List (LockEvent Query.Answer)) (r : OnldbResp)
    (hr : (extendCurrentReservation clock username min).Run tr r)
    (hS : ∀ q answer, .answer q answer ∈ tr → S.Answers q answer) :
    (r.result = 1 → ∃ cur ∈ S.reservations, ∃ newEnd admin, cur.user = username ∧ cur.Live ∧
      .answer (.setEnd cur.rid newEnd) (.ok ()) ∈ tr ∧ (admin = true → 0 < S.priv username) ∧
      S.ExtensionSafe admin cur newEnd) ∧
    (S.AllFit tr → ∀ p ∈ subtractions tr, p.2.amount ≤ p.1.amount) := by
  obtain ⟨hpost,hpre⟩ := (meets_extendCurrentReservation min).run hr
    fun q answer hm => ⟨hS q answer hm,hm⟩
  refine ⟨fun hone => ?_,fun hfit p hp => ?_⟩
  · obtain ⟨rid,newEnd,hm⟩ := hpost hone
    obtain ⟨cur,hcur,rfl,huser,hlive,admin,hadmin,hsafe⟩ := hpre _ _ hm
    exact ⟨cur,hcur,newEnd,admin,huser,hlive,hm,hadmin,hsafe⟩
  · obtain ⟨event,hm,he⟩ := List.mem_filterMap.1 hp
    split at he
    · cases he
      exact hpre _ _ hm hfit
    · cases he

end run

/-! ### One host with eight cores -/

/-- The reservations have a virtual machine or, for the number 0, all of the host `pc1`. -/
def pcStore (priv : String → ℕ) (rs : List (Reservation × NodeRow))
    (hrid : (rs.map (·.1.rid)).Nodup)
    (hrow : ∀ p ∈ rs, p.2.cores < 65536 ∧ p.2.memory < 65536) : Store where
  db := twoHosts
  types := [⟨"pc",8,8⟩]
  priv := priv
  reservations := rs.map Prod.fst
  tables rid := { nodeschedule := (rs.filter (·.1.rid = rid)).map Prod.snd }
  rid_nodup := by rwa [List.map_map]
  amount_lt rid row hm := by
    obtain ⟨p,hp,rfl⟩ := List.mem_map.1 hm
    exact hrow p (List.mem_filter.1 hp).1
  cluster_key n e c he hc := by
    simp only [twoHosts] at he
    split at he
    · cases he
      cases hc
    · cases he
  cluster_row rid row _ e c he hc := by
    simp only [twoHosts] at he
    split at he
    · cases he
      cases hc
    · cases he

/-- The extensions of a run that are written. -/
def updates (tr : List (LockEvent Query.Answer)) : List (ℕ × ℤ) :=
  tr.filterMap fun
  | .answer (.setEnd rid newEnd) (.ok ()) => some (rid,newEnd)
  | _ => none

theorem mem_of_updates {tr : List (LockEvent Query.Answer)} {rid : ℕ} {newEnd : ℤ}
    (h : (rid,newEnd) ∈ updates tr) : .answer (.setEnd rid newEnd) (.ok ()) ∈ tr := by
  obtain ⟨event,hm,he⟩ := List.mem_filterMap.1 h
  split at he
  · cases he
    exact hm
  · cases he

/-- The run of an extension by an hour at time 0. -/
def extendRun (S : Store) (username : String) :
    Option (List (LockEvent Query.Answer) × OnldbResp) :=
  (extendCurrentReservation ⟨0,fun _ => ""⟩ username 60).eval S.env

/-- While one user has a virtual machine with four cores, another has two of them for later, the
one after the other. -/
def twoUsers (cores : ℕ) (h : cores < 65536) : Store :=
  pcStore (fun _ => 0)
    [(⟨1,"u",0,3600,"pending"⟩,⟨"pc1",false,1,4,1⟩),
      (⟨2,"v",3600,5400,"pending"⟩,⟨"pc1",false,1,cores,1⟩),
      (⟨3,"v",5400,7200,"pending"⟩,⟨"pc1",false,1,cores,1⟩)]
    (by simp) (by simpa using h)

/-- An administrator has a host that is reserved for maintenance after that. -/
def maintenance : Store :=
  pcStore (fun _ => 1)
    [(⟨1,"admin",0,3600,"pending"⟩,⟨"pc1",false,0,1,1⟩),
      (⟨2,"repair",3600,7200,"pending"⟩,⟨"pc1",false,0,1,1⟩)]
    (by decide) (by decide)

/-- With two cores each, the extension is granted and safe. -/
theorem twoUsers_safe : ∃ cur ∈ (twoUsers 2 (by decide)).reservations, ∃ newEnd admin,
    cur.user = "u" ∧ (twoUsers 2 (by decide)).ExtensionSafe admin cur newEnd := by
  have hone : (extendRun (twoUsers 2 (by decide)) "u").map (·.2.result) = some 1 := by
    decide +kernel
  obtain ⟨⟨tr,r⟩,hrun,hr⟩ := Option.map_eq_some_iff.1 hone
  obtain ⟨hrun,henv⟩ := run_of_eval hrun
  obtain ⟨cur,hcur,newEnd,admin,huser,-,-,-,hsafe⟩ := (extend_safe _ _ _ _ tr r hrun
    fun q answer hm => henv q answer hm ▸ Store.answers_env _ q).1 hr
  exact ⟨cur,hcur,newEnd,admin,huser,hsafe⟩

/-- An administrator extends into the maintenance of a node. With five cores each, the later
reservations of the host take more than it has together, the subtraction wraps, and the
extension is granted. -/
theorem extend_conflicts :
    (¬ ∀ (S : Store) (clock : Clock) (username : String) (min : ℤ)
      (tr : List (LockEvent Query.Answer)) (r : OnldbResp),
      (extendCurrentReservation clock username min).Run tr r →
      (∀ q answer, .answer q answer ∈ tr → S.Answers q answer) → r.result = 1 →
      ∀ cur ∈ S.reservations, ∀ newEnd, .answer (.setEnd cur.rid newEnd) (.ok ()) ∈ tr →
      ∀ node, S.Has cur.rid node → ¬ S.SharedHost cur.rid node →
        S.NodeFree [] cur newEnd node) ∧
    (¬ ∀ (S : Store) (clock : Clock) (username : String) (min : ℤ)
      (tr : List (LockEvent Query.Answer)) (r : OnldbResp),
      (extendCurrentReservation clock username min).Run tr r →
      (∀ q answer, .answer q answer ∈ tr → S.Answers q answer) → r.result = 1 →
      (∀ cur ∈ S.reservations, ∀ newEnd, .answer (.setEnd cur.rid newEnd) (.ok ()) ∈ tr →
        ∀ node, S.Has cur.rid node → S.SharedHost cur.rid node →
          S.HostWithin [] cur newEnd node) ∧
      ∀ p ∈ subtractions tr, p.2.amount ≤ p.1.amount) := by
  constructor
  · intro h
    have hone : (extendRun maintenance "admin").map (fun p => (updates p.1,p.2.result)) =
        some ([(1,7200)],1) := by
      decide +kernel
    obtain ⟨⟨tr,r⟩,hrun,hr⟩ := Option.map_eq_some_iff.1 hone
    obtain ⟨hupdates,hone⟩ := Prod.mk.inj hr
    obtain ⟨hrun,henv⟩ := run_of_eval hrun
    have hfree := h _ _ _ _ tr r hrun (fun q answer hm => henv q answer hm ▸
      Store.answers_env _ q) hone ⟨1,"admin",0,3600,"pending"⟩ List.mem_cons_self 7200
      (mem_of_updates (hupdates ▸ List.mem_cons_self)) "pc1"
      ⟨⟨⟨"pc1",false,0,1,1⟩,List.mem_cons_self,rfl⟩,rfl⟩
      (fun hshared => absurd (hshared.1 ⟨"pc1",false,0,1,1⟩ List.mem_cons_self rfl) (by decide))
    refine hfree ⟨2,"repair",3600,7200,"pending"⟩ (.tail _ List.mem_cons_self) (by decide)
      List.not_mem_nil (by decide) (by decide) (by decide) ?_
    exact ⟨⟨⟨"pc1",false,0,1,1⟩,List.mem_cons_self,rfl⟩,rfl⟩
  · intro h
    have hone : (extendRun (twoUsers 5 (by decide)) "u").map
        (fun p => (subtractions p.1,p.2.result)) =
          some ([(⟨8,8⟩,⟨5,1⟩),(⟨3,7⟩,⟨5,1⟩),(⟨4294967294,6⟩,⟨4,1⟩)],1) := by
      decide +kernel
    obtain ⟨⟨tr,r⟩,hrun,hr⟩ := Option.map_eq_some_iff.1 hone
    obtain ⟨hsubs,hone⟩ := Prod.mk.inj hr
    obtain ⟨hrun,henv⟩ := run_of_eval hrun
    have hwrap := (h _ _ _ _ tr r hrun (fun q answer hm => henv q answer hm ▸
      Store.answers_env _ q) hone).2 (⟨3,7⟩,⟨5,1⟩) (hsubs ▸ by decide)
    exact absurd hwrap (by decide)

end OnlDaemons.Onldb
