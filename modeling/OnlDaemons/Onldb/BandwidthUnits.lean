import OnlDaemons.Onldb.BaseTopology
import OnlDaemons.Onldb.InterswitchBandwidth
import OnlDaemons.Onldb.ShortestPaths

/-!
# Gbps and Mbps

`connections` has capacities in Gbps, `connschedule` loads in Mbps. The base topology and
`check_interswitch_bandwidth` convert the capacities, `find_cheapest_path` compares what the base
topology has, `add_special_node` converts some, and `get_expired_sessions` none.

## Main definitions

- `getExpiredSessions`
- `Overloaded` — a connection carries more than its capacity, in a unit

## Main results

- `units_iff` — where capacities and loads are in one unit
-/

namespace OnlDaemons.Onldb.BandwidthUnits
open OnlDaemons.Lib TopologyEdits BaseTopology

/-- A row of `connschedule` of a running session. -/
structure CapConn where
  cid : ℕ
  rload : UInt16
  lload : UInt16

/-- What the queries of `get_expired_sessions` deliver: the users whose sessions run past their end,
the connections of all running sessions, and the capacity of a connection. -/
structure ExpiredRows where
  expired : Except String (List String)
  running : Except String (List CapConn)
  capacity : ℕ → Except String (List UInt16)

/-- The keys of the map `caps`. -/
def keys (cci : List CapConn) : List ℕ :=
  (cci.filter fun conn => conn.cid ≠ 0).foldl
    (fun ks conn => if conn.cid ∈ ks then ks else ks.orderedInsert (· ≤ ·) conn.cid) []

/-- The maps `rls` and `lls`. -/
def loadsOf (load : CapConn → UInt16) (cci : List CapConn) : ℕ → ℤ :=
  tally (fun _ => 0) ((cci.filter fun conn => conn.cid ≠ 0).map fun conn =>
    (conn.cid,((load conn).toNat : ℤ)))

def succeeded (users : List String) : OnldbResp × List String := (⟨1,"success"⟩,users)

def inconsistent : OnldbResp × List String := (⟨-1,"database consistency problem"⟩,[])

/-- The loop over `caps`. -/
def checkRunning (db : ExpiredRows) (expired : List String) (rls lls : ℕ → ℤ) :
    List ℕ → OnldbResp × List String
  | [] => succeeded []
  | cid :: rest =>
    match db.capacity cid with
    | .ok [capacity] =>
      if rls cid > capacity.toNat ∨ lls cid > capacity.toNat then succeeded expired
      else checkRunning db expired rls lls rest
    | _ => inconsistent

/-- `get_expired_sessions`, with the list `users`. -/
def getExpiredSessions (db : ExpiredRows) : OnldbResp × List String :=
  match db.expired with
  | .error _ => inconsistent
  | .ok [] => succeeded []
  | .ok expired =>
    match db.running with
    | .error _ => inconsistent
    | .ok cci =>
      checkRunning db expired (loadsOf CapConn.rload cci) (loadsOf CapConn.lload cci) (keys cci)

/-- The load of the running sessions on a connection. -/
def carried (load : CapConn → UInt16) (cci : List CapConn) (cid : ℕ) : ℕ :=
  ((cci.filter fun conn => conn.cid = cid).map fun conn => (load conn).toNat).sum

/-- A connection carries more than its capacity, which is in units of `unit` Mbps. -/
def Overloaded (unit : ℕ) (db : ExpiredRows) (cci : List CapConn) : Prop :=
  ∃ conn ∈ cci, conn.cid ≠ 0 ∧ ∃ capacity, db.capacity conn.cid = .ok [capacity] ∧
    (unit * capacity.toNat < carried CapConn.rload cci conn.cid ∨
      unit * capacity.toNat < carried CapConn.lload cci conn.cid)

variable {db : ExpiredRows} {cci : List CapConn} {cid : ℕ}

theorem mem_keys : cid ∈ keys cci ↔ cid ≠ 0 ∧ ∃ conn ∈ cci, conn.cid = cid := by
  have key : ∀ (rows : List CapConn) (ks : List ℕ), cid ∈ rows.foldl
      (fun ks conn => if conn.cid ∈ ks then ks else ks.orderedInsert (· ≤ ·) conn.cid) ks ↔
      cid ∈ ks ∨ ∃ conn ∈ rows, conn.cid = cid := by
    intro rows
    induction rows with
    | nil => exact fun ks => ⟨.inl,fun h => h.resolve_right (by simp)⟩
    | cons conn rows ih =>
      intro ks
      rw [List.foldl_cons,ih]
      have hin : cid ∈ (if conn.cid ∈ ks then ks else ks.orderedInsert (· ≤ ·) conn.cid) ↔
          cid ∈ ks ∨ conn.cid = cid := by
        split
        · next h =>
          refine (or_iff_left_of_imp ?_).symm
          rintro rfl
          exact h
        · rw [List.mem_orderedInsert,or_comm,eq_comm]
      rw [hin,or_assoc]
      simp
  rw [keys,key]
  constructor
  · rintro (h | ⟨conn,hm,rfl⟩)
    · exact absurd h List.not_mem_nil
    · obtain ⟨hm,hne⟩ := List.mem_filter.mp hm
      exact ⟨of_decide_eq_true hne,conn,hm,rfl⟩
  · rintro ⟨hne,conn,hm,rfl⟩
    exact .inr ⟨conn,List.mem_filter.mpr ⟨hm,decide_eq_true hne⟩,rfl⟩

/-- The maps hold the sums of the loads. -/
theorem loadsOf_eq (load : CapConn → UInt16) (hne : cid ≠ 0) :
    loadsOf load cci cid = carried load cci cid := by
  rw [loadsOf,tally_apply,Int.zero_add]
  induction cci with
  | nil => rfl
  | cons conn cci ih =>
    unfold carried at ih ⊢
    by_cases hz : conn.cid = 0
    · have hc : conn.cid ≠ cid := fun h => hne (h.symm.trans hz)
      simpa [hz,hc,Ne.symm hne] using ih
    · by_cases hc : conn.cid = cid
      · simp only [List.filter_cons,hc,hne,ne_eq,not_false_eq_true,decide_true,if_true,
          List.map_cons,amount_cons,List.sum_cons,ih]
        push_cast
        rfl
      · simpa [hz,hc,amount_cons] using ih

/-- The users are reported if the load of a connection is above the number of its capacity. -/
theorem checkRunning_spec {expired users : List String} {rls lls : ℕ → ℤ} {ks : List ℕ}
    (h : checkRunning db expired rls lls ks = succeeded users) :
    users = expired ∧ (∃ cid ∈ ks, ∃ capacity, db.capacity cid = .ok [capacity] ∧
      (rls cid > capacity.toNat ∨ lls cid > capacity.toNat)) ∨
    users = [] ∧ ∀ cid ∈ ks, ∀ capacity, db.capacity cid = .ok [capacity] →
      ¬(rls cid > capacity.toNat ∨ lls cid > capacity.toNat) := by
  induction ks with
  | nil =>
    cases h
    exact .inr ⟨rfl,fun _ h => absurd h List.not_mem_nil⟩
  | cons cid ks ih =>
    unfold checkRunning at h
    split at h
    · next capacity hcap =>
      split at h
      · next hover =>
        cases h
        exact .inl ⟨rfl,cid,List.mem_cons_self,capacity,hcap,hover⟩
      · next hover =>
        obtain ⟨hu,c,hc,hrest⟩ | ⟨hu,hrest⟩ := ih h
        · exact .inl ⟨hu,c,List.mem_cons_of_mem _ hc,hrest⟩
        · refine .inr ⟨hu,List.forall_mem_cons.mpr ⟨fun capacity' hcap' => ?_,hrest⟩⟩
          rw [hcap] at hcap'
          cases hcap'
          exact hover
    · exact absurd (show (-1 : ℤ) = 1 from congrArg (fun r => r.1.result) h) (by decide)

/-- What is reported is an overload in Gbps. -/
theorem getExpiredSessions_spec {expired users : List String} (hexp : db.expired = .ok expired)
    (hne : expired ≠ []) (hrun : db.running = .ok cci)
    (h : getExpiredSessions db = succeeded users) : users ≠ [] ↔ Overloaded 1 db cci := by
  have hcheck : checkRunning db expired (loadsOf CapConn.rload cci) (loadsOf CapConn.lload cci)
      (keys cci) = succeeded users := by
    unfold getExpiredSessions at h
    rw [hexp] at h
    cases expired with
    | nil => exact absurd rfl hne
    | cons u us =>
      simp only [hrun] at h
      exact h
  have hover : (∃ cid ∈ keys cci, ∃ capacity, db.capacity cid = .ok [capacity] ∧
      (loadsOf CapConn.rload cci cid > capacity.toNat ∨
        loadsOf CapConn.lload cci cid > capacity.toNat)) ↔ Overloaded 1 db cci := by
    constructor
    · rintro ⟨cid,hk,capacity,hcap,hgt⟩
      obtain ⟨hz,conn,hm,rfl⟩ := mem_keys.mp hk
      refine ⟨conn,hm,hz,capacity,hcap,?_⟩
      rw [loadsOf_eq _ hz,loadsOf_eq _ hz] at hgt
      omega
    · rintro ⟨conn,hm,hz,capacity,hcap,hgt⟩
      refine ⟨conn.cid,mem_keys.mpr ⟨hz,conn,hm,rfl⟩,capacity,hcap,?_⟩
      rw [loadsOf_eq _ hz,loadsOf_eq _ hz]
      omega
  obtain ⟨rfl,hex⟩ | ⟨rfl,hall⟩ := checkRunning_spec hcheck
  · exact iff_of_true hne (hover.mp hex)
  · refine iff_of_false (fun h => h rfl) fun ho => ?_
    obtain ⟨cid,hk,capacity,hcap,hgt⟩ := hover.mpr ho
    exact hall cid hk capacity hcap hgt

theorem Overloaded.mono {unit unit' : ℕ} (h : Overloaded unit db cci) (hle : unit' ≤ unit) :
    Overloaded unit' db cci := by
  obtain ⟨conn,hm,hz,capacity,hcap,hgt⟩ := h
  have hmul : unit' * capacity.toNat ≤ unit * capacity.toNat := Nat.mul_le_mul_right _ hle
  exact ⟨conn,hm,hz,capacity,hcap,by omega⟩

/-- A link between switches that a path is extended with has room in what is left of its connection
in both directions. -/
theorem extendPath_remaining {N : Type} [DecidableEq N] {s : Scheduling N ℕ} {q : Scheduling.PathQuery N ℕ}
    {seen : List N} {p r : LinkPath N ℕ} {l : ℕ} {base : BaseRows} {noreservations : Bool}
    {it : BaseLink} {x : LinkObject} (hs : s.Small q.ulink) (hsink : q.ends.node2 ∉ seen)
    (h : s.extendPath q seen p l = some r) (hinter : s.interswitch p.sink r.sink = true)
    (hr : (s.link l).potentialRcap = x.potentialRcap) (hl : (s.link l).potentialLcap = x.potentialLcap)
    (hrem : Remaining base noreservations it x) :
    ∃ loads, countedLoads base noreservations it.cid = .ok loads ∧ ∃ right : Bool,
      (s.rclamped q : ℤ) + sumLoads loads (if right then CapLoad.rload else CapLoad.lload) ≤
        1000 * it.capacity.toNat ∧
      (s.lclamped q : ℤ) + sumLoads loads (if right then CapLoad.lload else CapLoad.rload) ≤
        1000 * it.capacity.toNat := by
  obtain ⟨_,loads,hloads,hrcap,hlcap⟩ := hrem
  obtain ⟨_,⟨right,_,hroom,_⟩,_⟩ := Scheduling.hop_of_extendPath hs hsink h
  obtain ⟨hahead,hback⟩ := hroom.room hinter
  refine ⟨loads,hloads,right,?_⟩
  cases right with
  | true =>
    simp only [Scheduling.ahead,Scheduling.back,if_true,hr,hl] at hahead hback ⊢
    omega
  | false =>
    simp only [Scheduling.ahead,Scheduling.back,Bool.false_eq_true,if_false,hr,hl] at hahead hback ⊢
    omega

/-- The links of the base topology, those that a path takes, and the capacities that an extension is
checked against are in Mbps. The links of a special node are, unless it is in a cluster. The users of
expired sessions are reported for an overload, unless the load is between the capacity in Mbps and
the number that is stored. -/
theorem units_iff (sp : SpecialRows) (db : ExpiredRows) :
    (∀ (base : BaseRows) (noreservations : Bool) (t t' : Objects), t.links = [] →
      getBaseTopology base noreservations t = .ok t' → ∃ rows, base.connections = .ok rows ∧
        Linked base noreservations rows t' ∧
        ∀ (N : Type) [DecidableEq N] (s : Scheduling N ℕ) (q : Scheduling.PathQuery N ℕ)
          (seen : List N) (p r : LinkPath N ℕ), ∀ l ∈ t'.links, s.Small q.ulink →
          q.ends.node2 ∉ seen → s.extendPath q seen p l = some r → s.interswitch p.sink r.sink = true →
          (s.link l).potentialRcap = (t'.linkAt l).potentialRcap →
          (s.link l).potentialLcap = (t'.linkAt l).potentialLcap →
          ∃ it ∈ rows, ∃ loads, countedLoads base noreservations it.cid = .ok loads ∧
            ∃ right : Bool,
              (s.rclamped q : ℤ) + sumLoads loads (if right then CapLoad.rload else CapLoad.lload) ≤
                1000 * it.capacity.toNat ∧
              (s.lclamped q : ℤ) + sumLoads loads (if right then CapLoad.lload else CapLoad.rload) ≤
                1000 * it.capacity.toNat) ∧
    (∀ (tabs : LoadTables) (rid : ℕ) (t : Topology) (g : LoadTables.LoadSums),
      tabs.addLinks rid t = some g → ∀ cid ∈ g.keys, ∃ capacity : ℕ,
        tabs.capacity cid = some capacity ∧ g.connCaps cid = 1000 * capacity) ∧
    (∀ (t t' : Objects) (node : ℕ), (∀ l ∈ t.links, l < t.nextLink) →
      addSpecialNode sp t node = .ok t' → ∀ l ∈ t'.links,
        (l ∈ t.links ∧ (t'.linkAt l).capacity = (t.linkAt l).capacity) ∨
        ∃ it, sp.Connection it ∧ (t'.linkAt l).node1Port = it.node1port ∧
          (t'.linkAt l).node2Port = it.node2port ∧
          ((t'.linkAt l).capacity = 1000 * it.capacity.toNat ↔
            ¬(sp.InCluster (t.nodeAt node).node ∧ it.capacity ≠ 0))) ∧
    ∀ (expired users : List String) (cci : List CapConn),
      db.expired = .ok expired → expired ≠ [] → db.running = .ok cci →
      getExpiredSessions db = succeeded users →
      ((users ≠ [] ↔ Overloaded 1000 db cci) ↔ (Overloaded 1 db cci → Overloaded 1000 db cci)) := by
  refine ⟨?_,?_,?_,?_⟩
  · intro base noreservations t t' ht h
    obtain ⟨rows,hrows,hlinked⟩ := getBaseTopology_remaining ht h
    refine ⟨rows,hrows,hlinked,?_⟩
    intro N _ s q seen p r l hl hs hsink hext hinter hrcap hlcap
    obtain ⟨_,it,hit,hrem⟩ := hlinked l hl
    exact ⟨it,hit,extendPath_remaining hs hsink hext hinter hrcap hlcap hrem⟩
  · intro tabs rid t g hg cid hcid
    rw [LoadTables.addLinks_eq] at hg
    obtain ⟨hno,_⟩ | ⟨g',hg',hgath⟩ :=
      LoadTables.gathered_foldlM (LoadTables.linkConns t) (@LoadTables.gathered_nil tabs rid)
    · rw [hg] at hno
      cases hno
    · rw [hg] at hg'
      cases hg'
      have hcaps := hgath.caps cid hcid
      cases hcap : tabs.capacity cid with
      | none => exact absurd hcap (hgath.known cid hcid)
      | some capacity =>
        refine ⟨capacity,rfl,hcaps.trans ?_⟩
        rw [LoadTables.mbps,hcap]
        exact Int.mul_comm _ _
  · intro t t' node hv h l hl
    obtain ⟨hin,hext⟩ | ⟨hin,hext⟩ := addSpecialNode_extends hv h
    · obtain ⟨hm,hcap,_⟩ | ⟨it,hit,hp1,hp2,hcap,_⟩ := (hext l hl).2
      · exact .inl ⟨hm,hcap⟩
      · refine .inr ⟨it,hit,hp1,hp2,?_⟩
        rw [hcap,id]
        have hzero : it.capacity = 0 ↔ it.capacity.toNat = 0 :=
          ⟨fun h => by rw [h]; rfl,fun h => UInt16.toNat_inj.mp h⟩
        constructor
        · rintro he ⟨_,hne⟩
          exact hne (hzero.mpr (by omega))
        · intro hno
          have hz : it.capacity.toNat = 0 := hzero.mp (not_not.mp fun hne => hno ⟨hin,hne⟩)
          rw [hz]
    · obtain ⟨hm,hcap,_⟩ | ⟨it,hit,hp1,hp2,hcap,_⟩ := (hext l hl).2
      · exact .inl ⟨hm,hcap⟩
      · refine .inr ⟨it,hit,hp1,hp2,iff_of_true (hcap.trans (Nat.mul_comm _ _)) fun h => hin h.1⟩
  · intro expired users cci hexp hne hrun h
    have hspec := getExpiredSessions_spec hexp hne hrun h
    rw [hspec]
    exact ⟨fun h => h.mp,fun h => ⟨h,fun ho => ho.mono (by decide)⟩⟩

/-- A session runs past its end, and a connection of 1 Gbps carries 100 Mbps. -/
def lateSession : ExpiredRows where
  expired := .ok ["onluser"]
  running := .ok [⟨1,100,100⟩]
  capacity _ := .ok [1]

/-- A switch, and a node of the request that is named after a component of a cluster. -/
def switchOnly : Objects where
  nodeAt n := if n = 0 then { type := "switch", label := 1, node := "switch1", inCluster := 1 }
    else { type := "ixp", label := 1, node := "ixp1a" }
  linkAt _ := (⟨0,0,0,0,0,0,0,0,0,0,0,0⟩ : LinkArgs).link 0 0
  nextNode := 2
  nodes := [0]

/-- The component is in testing, and connected to the switch with 1 Gbps. -/
def testedComponent : SpecialRows where
  types := .ok []
  special _ := .ok [("ixp",some "ixp1")]
  neighbors _ := .ok ["switch1"]
  connections _ := .ok [⟨5,1,"ixp1a",0,"switch1",1⟩]
  clusterType _ := .ok ["ixpcluster"]
  clusterNodes _ := .ok [("ixp1a","ixp")]

/-- The user is reported although nothing is overloaded, and the link of the component has a capacity
of 1 Mbps. -/
theorem units_broken :
    getExpiredSessions lateSession = succeeded ["onluser"] ∧
    ¬Overloaded 1000 lateSession [⟨1,100,100⟩] ∧
    ∃ t', addSpecialNode testedComponent switchOnly 1 = .ok t' ∧ t'.links = [0] ∧
      (t'.linkAt 0).conns = [5] ∧ (t'.linkAt 0).capacity = 1 := by
  refine ⟨by decide,?_,_,rfl,rfl,rfl,rfl⟩
  rintro ⟨conn,hm,_,capacity,hcap,hgt⟩
  rw [List.mem_singleton.mp hm] at hgt
  cases hcap
  revert hgt
  decide

theorem units_iff_late :
    (((["onluser"] : List String) ≠ [] ↔ Overloaded 1000 lateSession [⟨1,100,100⟩]) ↔
      (Overloaded 1 lateSession [⟨1,100,100⟩] → Overloaded 1000 lateSession [⟨1,100,100⟩])) :=
  (units_iff testedComponent lateSession).2.2.2 ["onluser"] ["onluser"] [⟨1,100,100⟩] rfl (by decide) rfl
    (by decide)

end OnlDaemons.Onldb.BandwidthUnits
