import OnlDaemons.Npr.ArpRequests
import OnlDaemons.Npr.SramMap

/-!
# ARP results in SRAM

The ARP requests together with the configuration they write to: routes and filters come and go, and
their SRAM addresses are used again, while a request keeps the addresses it was made for, each with
the id that `get_sram_map` gave then.

## Main definitions

- `addArp`, `updateArp`, `writeNextHop` — what the ARP functions do to the configuration
- `ArpDaemon`, `ArpDaemon.step` — requests and configuration in one
- `ArpDaemon.SameEntry` — every write goes to the entry it is meant for

## Main results

- `step_arp` — the requests make the steps of `ArpRequests.step`
- `sameEntry_iff_current` — a run writes to the entries it should iff no entry of a request was deleted
  when its ARP packet is processed
-/

namespace OnlDaemons.Npr
open OnlDaemons.Lib OnlDaemons.Lib.RangeList

structure ArpEntry where
  ipaddr : ℕ
  index : ℕ
  sramAddr : ℕ
deriving DecidableEq, Repr

/-- The configuration with the TCAM database of the ARP entries. -/
structure ArpConf where
  conf : Configuration
  arpDb : List ArpEntry

/-- The two words of an `arp_result`, as the fields of a `route_result` that has them and `low32` as its
third word. -/
def arpResult (hi16 low32 nhLow32 : ℕ) : RouteResult where
  entryValid := 1
  nhIpValid := 0
  nhMacValid := 0
  ipMcValid := 0
  ucMcBits := 0
  qid := hi16
  statsIndex := low32 >>> 16
  nhHi16 := low32 &&& 0xffff
  nhLow32 := nhLow32

def SramWords.nhMacValid (w : SramWords) : ℕ := w.result.elim (·.nhMacValid) (·.nhMacValid)

/-- The third word, in which an entry without a MAC address has the address of its next hop. -/
def SramWords.nhLow32 (w : SramWords) : ℕ := w.result.elim (·.nhLow32) (·.nhLow32)

/-- The result gets the MAC address of its next hop. -/
def SramWords.withNextHop (w : SramWords) (hi16 low32 : ℕ) : SramWords :=
  match w.result with
  | .inl r =>
    ⟨.inl { r with nhIpValid := 0, nhMacValid := 1, nhHi16 := hi16, nhLow32 := low32 }, w.index⟩
  | .inr r =>
    ⟨.inr { r with nhIpValid := 0, nhMacValid := 1, nhHi16 := hi16, nhLow32 := low32 }, w.index⟩

def writeNextHop (c : Configuration) (w : SramWrite) : Configuration :=
  { c with sram := Function.update c.sram w.addr ((c.sram w.addr).withNextHop w.hi16 w.low32) }

def addArp (ipaddr hi16 low32 : ℕ) (x : Exchange) (c : ArpConf) : Except String Unit × ArpConf :=
  match getFreeIndex c.conf.arps with
  | none => (.error "no more free TCAM entries", c)
  | some (tcamIndex, l) =>
    let conf := { c.conf with arps := l }
    match getFreeIndex conf.sramFreeList with
    | none => (.error "no more free TCAM entries", { c with conf := conf })
    | some (sramIndex, l) =>
      let addr := sramIndex2addr sramIndex
      let conf := { conf with
        sramFreeList := l
        sram := Function.update conf.sram addr ⟨.inl (arpResult hi16 low32 0), tcamIndex⟩ }
      match x with
      | .dead text => (.error text, { c with conf := conf })
      | .fault => (.error "adding the arp entry failed!", { c with conf := conf })
      | .done => (.ok (), ⟨conf, ⟨ipaddr, tcamIndex, addr⟩ :: c.arpDb⟩)

def updateArp (ipaddr hi16 low32 : ℕ) (x : Exchange) (c : ArpConf) : Except String Unit × ArpConf :=
  match x with
  | .dead text => (.error text, c)
  | .fault => (.error "response from tcamd too small", c)
  | .done =>
    match c.arpDb.find? fun e => e.ipaddr = ipaddr with
    | none => (.error "response from tcamd too small", c)
    | some e =>
      let w := c.conf.sram e.sramAddr
      let sram := Function.update c.conf.sram e.sramAddr
        { w with result := .inl (arpResult hi16 low32 w.nhLow32) }
      (.ok (), { c with conf := { c.conf with sram := sram } })

def ArpCall.run (ipaddr hi16 low32 : ℕ) (x : Exchange) (c : ArpConf) :
    Option ArpCall → Except String Unit × ArpConf
  | none => (.ok (), c)
  | some .addArp => Npr.addArp ipaddr hi16 low32 x c
  | some .updateArp => Npr.updateArp ipaddr hi16 low32 x c

/-- `deleted` has the addresses and ids that were in the SRAM map and are not any more. -/
structure ArpDaemon (M : Type) where
  arp : ArpRequests M := {}
  conf : ArpConf
  deleted : List (ℕ × ℕ) := []

/-- Calls of the RLI, ARP packets and the steps of the threads; `x` is how the exchange of an ARP call
with the TCAM daemon ends. -/
inductive DaemonAct (M : Type) where
  | call (op : Op)
  | look (m : M)
  | record (m : M) (x : Exchange)
  | attempt (m : M) (buffer : Bool)
  | check (m : M)
  | fail (m : M)
  | process (ipaddr hi16 low32 : ℕ) (x : Exchange)

namespace ArpDaemon

variable {M : Type} [DecidableEq M] (sm : SearchMachine) (msg : M → DataPathMessage)

/-- What `get_sram_map` says when the packet is recorded. -/
def idFor (s : ArpDaemon M) (m : M) : Option ℕ := getSramMap (msg m).sramAddr s.conf.conf.srmap

/-- The ARP call that `send_arp_request` makes, and how it ends. -/
def recordCall (s : ArpDaemon M) (m : M) (ipaddr : ℕ) (x : Exchange) :
    Except String Unit × ArpConf :=
  let req := findRequest ipaddr s.arp.requests
  ArpCall.run ipaddr (req.elim 0 (·.macaddrHi16)) (req.elim 0 (·.macaddrLow32)) x s.conf
    (recordPacket (msg m) m ipaddr (s.idFor msg m) (.ok ()) s.arp.requests).calls

def processCall (s : ArpDaemon M) (ipaddr hi16 low32 : ℕ) (x : Exchange) :
    Except String Unit × ArpConf :=
  ArpCall.run ipaddr hi16 low32 x s.conf
    (processArpPacket msg ipaddr hi16 low32 (.ok ()) s.arp.requests).calls

/-- What the step writes to SRAM results, and to which entries. -/
def writes (s : ArpDaemon M) : DaemonAct M → List SramWrite
  | .record m x =>
    match s.arp.place m with
    | .looked ipaddr =>
      (recordPacket (msg m) m ipaddr (s.idFor msg m) (s.recordCall msg m ipaddr x).1
        s.arp.requests).writes
    | _ => []
  | .process ipaddr hi16 low32 x =>
    (processArpPacket msg ipaddr hi16 low32 (s.processCall msg ipaddr hi16 low32 x).1
      s.arp.requests).writes
  | _ => []

/-- The configuration after the ARP calls and the writes of the step. -/
def confAfter (s : ArpDaemon M) (a : DaemonAct M) : ArpConf :=
  let c := match a with
    | .record m x =>
      match s.arp.place m with
      | .looked ipaddr => (s.recordCall msg m ipaddr x).2
      | _ => s.conf
    | .process ipaddr hi16 low32 x => (s.processCall msg ipaddr hi16 low32 x).2
    | _ => s.conf
  { c with conf := (s.writes msg a).foldl writeNextHop c.conf }

/-- The step of the requests, with what the configuration answers. -/
def arpAct (s : ArpDaemon M) : DaemonAct M → Option (ArpAct M)
  | .call _ => none
  | .look m =>
    let w := s.conf.conf.sram (msg m).sramAddr
    some (.look m (w.nhMacValid = 1) w.nhLow32)
  | .record m x =>
    match s.arp.place m with
    | .looked ipaddr => some (.record m (s.idFor msg m) (s.recordCall msg m ipaddr x).1)
    | _ => none
  | .attempt m buffer => some (.attempt m buffer)
  | .check m => some (.check m)
  | .fail m => some (.fail m)
  | .process ipaddr hi16 low32 x =>
    some (.process ipaddr hi16 low32 (s.processCall msg ipaddr hi16 low32 x).1)

def step (s : ArpDaemon M) (a : DaemonAct M) : Option (ArpDaemon M) :=
  match a with
  | .call op =>
    if s.arp.ended then none
    else
      let conf := (exec sm op s.conf.conf).2
      some { s with
        conf := { s.conf with conf := conf }
        deleted := s.deleted ++ s.conf.conf.srmap.filter fun p => p ∉ conf.srmap }
  | a =>
    match s.arpAct msg a with
    | none => none
    | some b => (s.arp.step msg b).map fun arp => { s with arp := arp, conf := s.confAfter msg a }

/-- Every write of the step goes to the entry that was there when its address was recorded. -/
def SameEntry (s : ArpDaemon M) (a : DaemonAct M) (_ : ArpDaemon M) : Prop :=
  ∀ w ∈ s.writes msg a, getSramMap w.addr s.conf.conf.srmap = some w.id

/-- When an ARP packet is processed to its end, no entry of the request was deleted since it was
recorded. -/
def Current (s : ArpDaemon M) (a : DaemonAct M) (_ : ArpDaemon M) : Prop :=
  match a with
  | .process ipaddr hi16 low32 x =>
    ∀ r, findRequest ipaddr s.arp.requests = some r →
      (s.processCall msg ipaddr hi16 low32 x).1 = .ok () →
      (r.state = .outstanding → ∀ m ∈ r.msgs, sendPacketToDataPath (msg m) = .ok ()) →
      ∀ p ∈ r.pairs, p ∉ s.deleted
  | _ => True

end ArpDaemon

/-! ### The ARP functions and the SRAM map -/

/-- What the ARP functions leave of the configuration. -/
structure KeepsMap (c c' : Configuration) : Prop where
  owned : Owned c → Owned c'
  mapped : Owned c → Mapped c → Mapped c'
  srmap : c'.srmap = c.srmap
  nextId : c'.nextId = c.nextId

variable {c c' : Configuration}

theorem KeepsMap.refl (c : Configuration) : KeepsMap c c := ⟨id,fun _ => id,rfl,rfl⟩

theorem KeepsMap.trans {c'' : Configuration} (h : KeepsMap c c') (h' : KeepsMap c' c'') :
    KeepsMap c c'' :=
  ⟨fun ho => h'.owned (h.owned ho),fun ho hm => h'.mapped (h.owned ho) (h.mapped ho hm),
    h'.srmap.trans h.srmap,h'.nextId.trans h.nextId⟩

/-- SRAM results change, but not the TCAM indices beside them. -/
theorem keepsMap_sram {sram : ℕ → SramWords} (h : ∀ a, (sram a).index = (c.sram a).index) :
    KeepsMap c { c with sram := sram } where
  owned ho := ⟨ho.home,ho.ordered,ho.sramOrdered,ho.sramWithin,ho.disjoint,ho.used,ho.nodup,
    ho.sramUsed,fun d e he => (h _).trans (ho.sramIndex d e he),ho.sramOne⟩
  mapped _ hm := ⟨hm.nodup,hm.free,hm.used,hm.ids⟩
  srmap := rfl
  nextId := rfl

theorem keepsMap_update {a : ℕ} {w : SramWords} (h : w.index = (c.sram a).index) :
    KeepsMap c { c with sram := Function.update c.sram a w } := by
  refine keepsMap_sram fun b => ?_
  by_cases hb : b = a
  · subst hb
    rw [Function.update_self,h]
  · rw [Function.update_of_ne hb]

theorem index_withNextHop (w : SramWords) (hi16 low32 : ℕ) :
    (w.withNextHop hi16 low32).index = w.index := by
  unfold SramWords.withNextHop
  cases w.result <;> rfl

theorem keepsMap_writes (l : List SramWrite) (c : Configuration) :
    KeepsMap c (l.foldl writeNextHop c) := by
  induction l generalizing c with
  | nil => exact KeepsMap.refl c
  | cons w l ih => exact (keepsMap_update (index_withNextHop _ _ _)).trans (ih _)

/-- An SRAM index is taken that goes to no entry of the map. -/
theorem keepsMap_take {l l' : IndexList} {j i : ℕ} {result : RouteResult ⊕ AfilterResult}
    (hj : getFreeIndex c.sramFreeList = some (j,l')) :
    KeepsMap c { c with
      arps := l
      sramFreeList := l'
      sram := Function.update c.sram (sramIndex2addr j) ⟨result,i⟩ } where
  owned ho := by
    obtain ⟨hol,hjl,hcl⟩ := getFreeIndex_spec ho.sramOrdered hj
    refine ⟨ho.home,ho.ordered,hol,?_,ho.disjoint,ho.used,ho.nodup,fun d e he => ?_,
      fun d e he => ?_,ho.sramOne⟩
    · exact (within_iff hol).mpr fun k hk =>
        (within_iff ho.sramOrdered).mp ho.sramWithin k ((hcl k).mp hk).1
    · obtain ⟨k,hk,ha,hc⟩ := ho.sramUsed d e he
      exact ⟨k,hk,ha,fun h => hc ((hcl k).mp h).1⟩
    · obtain ⟨k,-,ha,hc⟩ := ho.sramUsed d e he
      have hne : sramAddr e.result ≠ sramIndex2addr j := fun h =>
        hc (sramIndex2addr_injective (ha.symm.trans h) ▸ hjl)
      show (Function.update c.sram (sramIndex2addr j) _ (sramAddr e.result)).index = _
      rw [Function.update_of_ne hne]
      exact ho.sramIndex d e he
  mapped ho hm := by
    obtain ⟨-,-,hcl⟩ := getFreeIndex_spec ho.sramOrdered hj
    exact ⟨hm.nodup,fun k hk => hm.free k ((hcl k).mp hk).1,hm.used,hm.ids⟩
  srmap := rfl
  nextId := rfl

theorem keepsMap_addArp (ipaddr hi16 low32 : ℕ) (x : Exchange) (c : ArpConf) :
    KeepsMap c.conf (addArp ipaddr hi16 low32 x c).2.conf := by
  unfold addArp
  split
  · exact KeepsMap.refl _
  · simp only
    split
    · exact ⟨fun ho => ⟨ho.home,ho.ordered,ho.sramOrdered,ho.sramWithin,ho.disjoint,ho.used,
        ho.nodup,ho.sramUsed,ho.sramIndex,ho.sramOne⟩,
        fun _ hm => ⟨hm.nodup,hm.free,hm.used,hm.ids⟩,rfl,rfl⟩
    · next hj => cases x <;> exact keepsMap_take hj

theorem keepsMap_updateArp (ipaddr hi16 low32 : ℕ) (x : Exchange) (c : ArpConf) :
    KeepsMap c.conf (updateArp ipaddr hi16 low32 x c).2.conf := by
  unfold updateArp
  cases x with
  | dead text => exact KeepsMap.refl _
  | fault => exact KeepsMap.refl _
  | done =>
    simp only
    split
    · exact KeepsMap.refl _
    · exact keepsMap_update rfl

theorem keepsMap_run (call : Option ArpCall) (ipaddr hi16 low32 : ℕ) (x : Exchange) (c : ArpConf) :
    KeepsMap c.conf (ArpCall.run ipaddr hi16 low32 x c call).2.conf := by
  cases call with
  | none => exact KeepsMap.refl _
  | some call =>
    cases call with
    | addArp => exact keepsMap_addArp ..
    | updateArp => exact keepsMap_updateArp ..

/-! ### The invariant -/

namespace ArpDaemon

variable {M : Type} [DecidableEq M] {sm : SearchMachine} {msg : M → DataPathMessage}
  {s t : ArpDaemon M} {a : DaemonAct M}

/-- What a request remembers is in the map, or was deleted. -/
structure Inv (s : ArpDaemon M) : Prop where
  owned : Owned s.conf.conf
  mapped : Mapped s.conf.conf
  pairs : s.arp.ended = false → ∀ ip r, findRequest ip s.arp.requests = some r → ∀ p ∈ r.pairs,
    p ∈ s.conf.conf.srmap ∨ p ∈ s.deleted
  deleted : ∀ p ∈ s.deleted, p ∉ s.conf.conf.srmap ∧ p.2 < s.conf.conf.nextId

omit [DecidableEq M] in
theorem keepsMap_confAfter (msg : M → DataPathMessage) (s : ArpDaemon M) (a : DaemonAct M) :
    KeepsMap s.conf.conf (s.confAfter msg a).conf := by
  unfold confAfter
  refine KeepsMap.trans ?_ (keepsMap_writes _ _)
  cases a with
  | record m x =>
    simp only
    split
    · exact keepsMap_run ..
    · exact KeepsMap.refl _
  | process ipaddr hi16 low32 x => exact keepsMap_run ..
  | call op => exact KeepsMap.refl _
  | look m => exact KeepsMap.refl _
  | attempt m buffer => exact KeepsMap.refl _
  | check m => exact KeepsMap.refl _
  | fail m => exact KeepsMap.refl _

/-- A request remembers what it remembered, and what is recorded. -/
theorem step_pairs {q q' : ArpRequests M} {b : ArpAct M} (hq : q.ended = false)
    (h : ArpRequests.step msg q b = some q') (hlive : q'.ended = false) {ip : ℕ} {r : RequestNode M}
    (hr : findRequest ip q'.requests = some r) {p : ℕ × ℕ} (hp : p ∈ r.pairs) :
    (∃ r', findRequest ip q.requests = some r' ∧ p ∈ r'.pairs) ∨
      ∃ m conf, b = .record m (some p.2) conf ∧ p.1 = (msg m).sramAddr := by
  -- where the table stays
  have hsame : q'.requests = q.requests → ∃ r', findRequest ip q.requests = some r' ∧ p ∈ r'.pairs :=
    fun he => ⟨r,he ▸ hr,hp⟩
  -- where it has another request for one address
  have hchanged : ∀ {ip' : ℕ} {req : RequestNode M}, Changed q.requests q'.requests ip' req →
      (p ∈ req.pairs → (∃ r', findRequest ip' q.requests = some r' ∧ p ∈ r'.pairs) ∨
        ∃ m conf, b = .record m (some p.2) conf ∧ p.1 = (msg m).sramAddr) →
      (∃ r', findRequest ip q.requests = some r' ∧ p ∈ r'.pairs) ∨
        ∃ m conf, b = .record m (some p.2) conf ∧ p.1 = (msg m).sramAddr := by
    intro ip' req hc hreq
    rw [hc.find ip] at hr
    split at hr
    · next he =>
      cases hr
      exact he ▸ hreq hp
    · exact .inl ⟨r,hr,hp⟩
  cases b with
  | look m macValid ipaddr =>
    simp only [ArpRequests.step,hq,Bool.false_eq_true,if_false] at h
    split at h
    · cases h
      exact .inl (hsame rfl)
    · split at h <;> cases h <;> exact .inl (hsame rfl)
    · cases h
  | record m id conf =>
    simp only [ArpRequests.step,hq,Bool.false_eq_true,if_false] at h
    split at h
    · next ipaddr _ =>
      cases h
      cases hfind : findRequest ipaddr q.requests with
      | none =>
        obtain ⟨req,hreq,hip,-,-,-,-,-,hres⟩ :=
          recordPacket_new (msg m) m id conf hfind
        refine hchanged (hreq ▸ changed_cons hfind hip) fun hp => .inr ?_
        rcases hres with ⟨-,hpairs⟩ | ⟨hend,-⟩
        · obtain ⟨ha,hid⟩ := hpairs p hp
          exact ⟨m,conf,by rw [hid],ha⟩
        · exact absurd hend (by simpa using hlive)
      | some req =>
        obtain ⟨req',hreq,hj⟩ :=
          recordPacket_found (msg m) m id conf hfind
        have hip := hj.ipaddr.trans (findRequest_ipaddr hfind)
        refine hchanged (hreq ▸ changed_setRequest hfind hip) fun hp => ?_
        rcases hj.pairs p hp with hold | ⟨ha,hid⟩
        · exact .inl ⟨req,hfind,hold⟩
        · exact .inr ⟨m,conf,by rw [hid],ha⟩
    · cases h
  | attempt m buffer =>
    simp only [ArpRequests.step,hq,Bool.false_eq_true,if_false] at h
    split at h
    · cases h
      exact .inl (hsame rfl)
    · cases h
  | check m =>
    simp only [ArpRequests.step,hq,Bool.false_eq_true,if_false] at h
    split at h
    · split at h <;> cases h <;> exact .inl (hsame rfl)
    · cases h
  | fail m =>
    simp only [ArpRequests.step,hq,Bool.false_eq_true,if_false] at h
    split at h
    · next ipaddr _ =>
      cases h
      cases hfind : findRequest ipaddr q.requests with
      | none => exact .inl (hsame (setRequest_none hfind))
      | some req =>
        refine hchanged (changed_failRequest hfind) fun hp => .inl ⟨req,hfind,?_⟩
        rwa [← pairs_of_cleared (cleared_cleared req)]
    · cases h
  | process ipaddr hi16 low32 conf =>
    simp only [ArpRequests.step,hq,Bool.false_eq_true,if_false] at h
    cases h
    cases hfind : findRequest ipaddr q.requests with
    | none =>
      obtain ⟨req,hreq,hip,-,-,hpairs,-⟩ := processArpPacket_new msg hi16 low32 conf hfind
      refine hchanged (hreq ▸ changed_cons hfind hip) fun hp => ?_
      rw [hpairs] at hp
      exact absurd hp List.not_mem_nil
    | some req =>
      obtain ⟨req',hreq,ha⟩ := processArpPacket_found msg hi16 low32 conf hfind
      have hip := ha.ipaddr.trans (findRequest_ipaddr hfind)
      refine hchanged (hreq ▸ changed_setRequest hfind hip) fun hp => .inl ⟨req,hfind,?_⟩
      rwa [← ha.pairs]

theorem ended_of_step {q q' : ArpRequests M} {b : ArpAct M} (h : ArpRequests.step msg q b = some q') :
    q.ended = false := by
  unfold ArpRequests.step at h
  split at h
  · cases h
  · next hq => simpa using hq

/-- The requests make the steps of `ArpRequests.step`. -/
theorem step_arp (h : step sm msg s a = some t) :
    (∃ op, a = .call op ∧ s.arp.ended = false ∧ t.arp = s.arp ∧
      t.conf.conf = (exec sm op s.conf.conf).2 ∧
      t.deleted = s.deleted ++ s.conf.conf.srmap.filter fun p => p ∉ t.conf.conf.srmap) ∨
    ∃ b, s.arpAct msg a = some b ∧ ArpRequests.step msg s.arp b = some t.arp ∧
      t.conf = s.confAfter msg a ∧ t.deleted = s.deleted := by
  have harp : ∀ {u : Option (ArpDaemon M)}, u = some t → u = (match s.arpAct msg a with
      | none => none
      | some b => (s.arp.step msg b).map fun arp => { s with arp := arp, conf := s.confAfter msg a }) →
      ∃ b, s.arpAct msg a = some b ∧ ArpRequests.step msg s.arp b = some t.arp ∧
        t.conf = s.confAfter msg a ∧ t.deleted = s.deleted := by
    intro u hu he
    rw [hu] at he
    cases hb : s.arpAct msg a with
    | none =>
      rw [hb] at he
      cases he
    | some b =>
      rw [hb] at he
      obtain ⟨arp,harp,rfl⟩ := Option.map_eq_some_iff.mp he.symm
      exact ⟨b,rfl,harp,rfl,rfl⟩
  cases a with
  | call op =>
    simp only [step] at h
    split at h
    · cases h
    · next he =>
      cases h
      exact .inl ⟨op,rfl,by simpa using he,rfl,rfl,rfl⟩
  | look m => exact .inr (harp h rfl)
  | record m x => exact .inr (harp h rfl)
  | attempt m buffer => exact .inr (harp h rfl)
  | check m => exact .inr (harp h rfl)
  | fail m => exact .inr (harp h rfl)
  | process ipaddr hi16 low32 x => exact .inr (harp h rfl)

omit [DecidableEq M] in
/-- Only `record` records, and with the id that the map has. -/
theorem arpAct_record {m : M} {id : ℕ} {conf : Except String Unit}
    (h : s.arpAct msg a = some (.record m (some id) conf)) : s.idFor msg m = some id := by
  cases a with
  | call op => cases h
  | look m => cases h
  | record m x =>
    simp only [arpAct] at h
    split at h
    · simp only [Option.some.injEq,ArpAct.record.injEq] at h
      obtain ⟨rfl,hid,-⟩ := h
      exact hid
    · cases h
  | attempt m buffer => cases h
  | check m => cases h
  | fail m => cases h
  | process ipaddr hi16 low32 x => cases h

omit [DecidableEq M] in
theorem Inv.call (h : Inv s) {op : Op} (harp : t.arp = s.arp)
    (hconf : t.conf.conf = (exec sm op s.conf.conf).2)
    (hdel : t.deleted = s.deleted ++ s.conf.conf.srmap.filter fun p => p ∉ t.conf.conf.srmap) :
    Inv t := by
  obtain ⟨ho,hm,hs⟩ := exec_step h.owned h.mapped sm op
  rw [← hconf] at ho hm hs
  refine ⟨ho,hm,fun he ip r hr p hp => ?_,fun p hp => ?_⟩
  · rw [harp] at he hr
    rw [hdel]
    by_cases hin : p ∈ t.conf.conf.srmap
    · exact .inl hin
    · refine .inr (List.mem_append.mpr ?_)
      rcases h.pairs he ip r hr p hp with hmap | hd
      · exact .inr (List.mem_filter.mpr ⟨hmap,by simpa using hin⟩)
      · exact .inl hd
  · rw [hdel] at hp
    rcases List.mem_append.mp hp with hp | hp
    · obtain ⟨hnot,hlt⟩ := h.deleted p hp
      refine ⟨fun hin => ?_,Nat.lt_of_lt_of_le hlt hs.nextId⟩
      -- an id that is new is not one of a deleted entry
      rcases hs.srmap p hin with hold | hnew
      · exact hnot hold
      · exact absurd hlt (Nat.not_lt.mpr hnew)
    · obtain ⟨hmap,hnot⟩ := List.mem_filter.mp hp
      exact ⟨by simpa using hnot,Nat.lt_of_lt_of_le (h.mapped.ids p hmap) hs.nextId⟩

theorem Inv.arp (h : Inv s) {b : ArpAct M} (hb : s.arpAct msg a = some b)
    (hstep : ArpRequests.step msg s.arp b = some t.arp) (hconf : t.conf = s.confAfter msg a)
    (hdel : t.deleted = s.deleted) : Inv t := by
  have hk := keepsMap_confAfter msg s a
  rw [← hconf] at hk
  refine ⟨hk.owned h.owned,hk.mapped h.owned h.mapped,fun he ip r hr p hp => ?_,fun p hp => ?_⟩
  · rw [hk.srmap,hdel]
    have hq := ended_of_step hstep
    rcases step_pairs hq hstep he hr hp with ⟨r',hr',hp'⟩ | ⟨m,conf,rfl,ha⟩
    · exact h.pairs hq ip r' hr' p hp'
    · have hid := arpAct_record hb
      rw [idFor,← ha] at hid
      exact .inl ((getSramMap_iff h.mapped.nodup).mp hid)
  · rw [hk.srmap,hk.nextId]
    exact h.deleted p (hdel ▸ hp)

theorem Inv.step (h : Inv s) (hstep : step sm msg s a = some t) : Inv t := by
  rcases step_arp hstep with ⟨op,-,-,harp,hconf,hdel⟩ | ⟨b,hb,harp,hconf,hdel⟩
  · exact h.call harp hconf hdel
  · exact h.arp hb harp hconf hdel

/-! ### Main result -/

theorem Inv.sameEntry_process (h : Inv s) {ipaddr hi16 low32 : ℕ} {x : Exchange}
    (hlive : s.arp.ended = false) : SameEntry msg s (.process ipaddr hi16 low32 x) t ↔
      Current msg s (.process ipaddr hi16 low32 x) t := by
  unfold SameEntry Current
  simp only [writes]
  cases hfind : findRequest ipaddr s.arp.requests with
  | none =>
    obtain ⟨req,-,-,-,-,-,-,hw⟩ := processArpPacket_new msg hi16 low32 (s.processCall msg ipaddr hi16 low32 x).1 hfind
    rw [hw]
    exact ⟨fun _ _ => nofun,fun _ _ => nofun⟩
  | some req =>
    obtain ⟨req',-,ha⟩ := processArpPacket_found msg hi16 low32 (s.processCall msg ipaddr hi16 low32 x).1 hfind
    by_cases hok : (processArpPacket msg ipaddr hi16 low32
        (s.processCall msg ipaddr hi16 low32 x).1 s.arp.requests).result = .ok ()
    · obtain ⟨hconf,hsend⟩ := ha.isOk.mp hok
      have hw := (ha.finished hok).2
      have hpair : ∀ p ∈ req.pairs, getSramMap p.1 s.conf.conf.srmap = some p.2 ↔ p ∉ s.deleted := by
        intro p hp
        rw [getSramMap_iff h.mapped.nodup]
        exact ⟨fun hin hd => (h.deleted p hd).1 hin,
          (h.pairs hlive ipaddr req hfind p hp).resolve_right⟩
      constructor
      · intro hall r hr _ _ p hp
        cases hr
        refine (hpair p hp).mp ?_
        rw [← hw] at hp
        obtain ⟨w,hwin,rfl⟩ := List.mem_map.mp hp
        exact hall w hwin
      · intro hcur w hwin
        have hp : (w.addr,w.id) ∈ req.pairs := hw ▸ List.mem_map_of_mem hwin
        exact (hpair _ hp).mpr (hcur req rfl hconf hsend _ hp)
    · have hw := (ha.failed hok).2
      rw [hw]
      refine ⟨fun _ r hr hconf hsend => ?_,fun _ _ => nofun⟩
      cases hr
      exact absurd (ha.isOk.mpr ⟨hconf,hsend⟩) hok

theorem sameEntry_record {m : M} {x : Exchange} : SameEntry msg s (.record m x) t := by
  intro w hw
  simp only [writes] at hw
  split at hw
  · next ipaddr _ =>
    have hid : w.addr = (msg m).sramAddr ∧ s.idFor msg m = some w.id := by
      cases hfind : findRequest ipaddr s.arp.requests with
      | none =>
        obtain ⟨req,-,-,-,-,-,-,hnil,-⟩ := recordPacket_new (msg m) m (s.idFor msg m) (s.recordCall msg m ipaddr x).1 hfind
        rw [hnil] at hw
        cases hw
      | some req =>
        obtain ⟨req',-,hj⟩ := recordPacket_found (msg m) m (s.idFor msg m) (s.recordCall msg m ipaddr x).1 hfind
        exact hj.writes w hw
    rw [hid.1]
    exact hid.2
  · cases hw

theorem Inv.sameEntry_iff (h : Inv s) (hstep : ArpDaemon.step sm msg s a = some t) :
    SameEntry msg s a t ↔ Current msg s a t := by
  have hnone : ∀ l : List SramWrite, l = [] →
      ∀ w ∈ l, getSramMap w.addr s.conf.conf.srmap = some w.id := by
    rintro l rfl
    exact nofun
  cases a with
  | process ipaddr hi16 low32 x =>
    rcases step_arp hstep with ⟨op,hbad,-⟩ | ⟨b,-,harp,-⟩
    · cases hbad
    · exact h.sameEntry_process (ended_of_step harp)
  | record m x => exact iff_of_true sameEntry_record trivial
  | call op => exact iff_of_true (hnone _ rfl) trivial
  | look m => exact iff_of_true (hnone _ rfl) trivial
  | attempt m buffer => exact iff_of_true (hnone _ rfl) trivial
  | check m => exact iff_of_true (hnone _ rfl) trivial
  | fail m => exact iff_of_true (hnone _ rfl) trivial

theorem sameEntry_iff_current (sm : SearchMachine) (msg : M → DataPathMessage)
    {nextId : ℕ} {sram : ℕ → SramWords} {c : Configuration}
    (hc : startRouter [] nextId sram = some c) (tr : List (DaemonAct M × ArpDaemon M))
    (hr : IsRun (fun s a t => step sm msg s a = some t) { conf := ⟨c,[]⟩ } tr) :
    EveryStep (SameEntry msg) { conf := ⟨c,[]⟩ } tr ↔
      EveryStep (Current msg) { conf := ⟨c,[]⟩ } tr := by
  obtain ⟨ho,hm⟩ := mapped_startRouter sm hc
  have hinit : Inv ({ conf := ⟨c,[]⟩ } : ArpDaemon M) :=
    ⟨ho,hm,fun _ _ _ => nofun,fun _ => nofun⟩
  exact hr.everyStep_congr (fun _ _ _ h hstep => h.step hstep) (fun _ _ _ h hstep =>
    h.sameEntry_iff hstep) hinit

/-! ### An address that is used again -/

/-- The next hop is asked for at the first SRAM address after those of the default filters. -/
def nextHopNeeded (_ : ℕ) : DataPathMessage := ⟨.nhr, 80, 0⟩

def viaNextHop : RouteResult where
  entryValid := 1
  nhIpValid := 1
  nhMacValid := 0
  ipMcValid := 0
  ucMcBits := 0
  qid := 0
  statsIndex := 0
  nhHi16 := 0
  nhLow32 := 7

def addNet (n : ℕ) : Op :=
  .addRoute ⟨n <<< 24, 0, 0, 0⟩ ⟨0xff000000, 0, 0, 0⟩ viaNextHop .done

def delNet (n : ℕ) : Op := .delRoute ⟨n <<< 24, 0, 0, 0⟩ .done .done

/-- The state `start_router` leaves. -/
def started : ArpDaemon ℕ := { conf := ⟨SharedConf.started.conf,[]⟩ }

instance (s : ArpDaemon ℕ) (a : DaemonAct ℕ) (t : ArpDaemon ℕ) :
    Decidable (SameEntry nextHopNeeded s a t) :=
  inferInstanceAs (Decidable (∀ w ∈ s.writes nextHopNeeded a, _ = _))

/-- Between the ARP request and its answer the route is deleted, and another is added. -/
theorem reused_overwritten : ¬ ∀ (sm : SearchMachine) (msg : ℕ → DataPathMessage) (c : Configuration)
    (tr : List (DaemonAct ℕ × ArpDaemon ℕ)), startRouter [] 0 blankSram = some c →
    IsRun (fun s a t => step sm msg s a = some t) { conf := ⟨c,[]⟩ } tr →
    EveryStep (SameEntry msg) { conf := ⟨c,[]⟩ } tr := by
  intro h
  have hs := h tcam nextHopNeeded SharedConf.started.conf _ SharedConf.startRouter_started
    (isRun_runOf (step tcam nextHopNeeded) started [.call (addNet 10),.look 0,.record 0 .done,
      .call (delNet 10),.call (addNet 11),.process 7 1 2 .done])
  revert hs
  decide +kernel

/-- The route is there when the answer comes. -/
theorem answered_current : EveryStep (SameEntry nextHopNeeded) started
    (runOf (step tcam nextHopNeeded) started [.call (addNet 10),.look 0,.record 0 .done,
      .call (addNet 11),.process 7 1 2 .done,.call (delNet 10)]) := by
  refine (sameEntry_iff_current tcam nextHopNeeded SharedConf.startRouter_started _
    (isRun_runOf (step tcam nextHopNeeded) started _)).mpr ?_
  refine ⟨trivial,trivial,trivial,trivial,fun r hr _ _ p _ => ?_,trivial,trivial⟩
  have hnil : (lastState started (runOf (step tcam nextHopNeeded) started [.call (addNet 10),.look 0,
    .record 0 .done,.call (addNet 11)])).deleted = [] := by decide +kernel
  exact fun hin => absurd (hnil ▸ hin) List.not_mem_nil

end ArpDaemon

end OnlDaemons.Npr
