import OnlDaemons.Crd.CrdRequests

/-!
# The configuration of the ends of a link

`session::commit` makes a link from the request for it and from what the topology says of it, and each of the two
components is then sent the configuration of its port.

## Main definitions

- `commitLink` — the part of `session::commit` that makes a link
- `ConfiguredLink.sendPortConfiguration`, `ConfiguredLink.messages` — what the ends are sent
- `ConfiguredLink.Configures` — what a message should say of its own end and of the other one
- `ConfiguredLink.Consistent` — both messages do, and follow an exchange of the ends

## Main result

- `consistent_iff`
-/

namespace OnlDaemons.Crd
open OnlDaemons.Shared

/-- What the topology says of one side of a link, when the resources are assigned. -/
structure MappedEnd where
  rport : ℤ
  capacity : UInt32
  mac : List UInt8
deriving DecidableEq, Repr

structure MappedLink where
  label : UInt32
  node1 : MappedEnd
  node2 : MappedEnd
deriving DecidableEq, Repr

namespace MappedLink

def side (l : MappedLink) (ndx : ℕ) : MappedEnd := if ndx = 1 then l.node1 else l.node2

def exchange (l : MappedLink) : MappedLink := { l with node1 := l.node2, node2 := l.node1 }

end MappedLink

section Accessors

variable (links : List MappedLink) (label : UInt32) (ndx : ℕ)

/-- The first link with the label. -/
def mappedSide : Option MappedEnd := (links.find? fun l => l.label = label).map fun l => l.side ndx

def getRealport : ℤ := (mappedSide links label ndx).elim (-1) MappedEnd.rport

/-- `-1` is the largest `unsigned int` in the link. -/
def getCapacity : UInt32 := (mappedSide links label ndx).elim (-1) MappedEnd.capacity

def getMacaddr : List UInt8 := (mappedSide links label ndx).elim [] MappedEnd.mac

end Accessors

/-- A conversion to `unsigned short`. -/
def toUnsignedShort (x : ℤ) : UInt16 := UInt16.ofNat (x % 65536).toNat

/-- A string that is assigned to a string of a message. -/
def nccpString (s : List UInt8) : NccpString := NccpString.ofChars (s.takeWhile (· != 0))

/-- The fields of `crd_component` that matter to a link. -/
structure EndComponent where
  name : List UInt8
  type : List UInt8
  devip : List UInt8
  comp : Component
  nccpconn : ℕ
deriving DecidableEq, Repr

structure Endpoint where
  comp : EndComponent
  port : UInt16
  rport : UInt16
  cap : UInt32
  mac : List UInt8
deriving DecidableEq, Repr

/-- `isNew` is the state `"new"`, and `sess` what the session puts into the messages. -/
structure ConfiguredLink where
  comp : Component
  p1 : Endpoint
  p2 : Endpoint
  isNew : Bool := true
  linkreq : AddLinkReq
  sess : Option ExperimentInfo
  vlanid : UInt32
deriving DecidableEq, Repr

/-- `configure_node`, with the connection it goes over. -/
structure PortMessage where
  exp : Experiment
  comp : Component
  nodeConf : Shared.NodeInfo
  nccpconn : ℕ
deriving DecidableEq, Repr

/-- The constructor of `node_info`. -/
def makeNodeInfo (ip sn : List UInt8) (portnum rport : UInt32) (devip : List UInt8) : Shared.NodeInfo where
  ipaddr := nccpString ip
  subnet := nccpString sn
  port := portnum
  nexthop := ⟨.empty,.empty,false,.empty,.empty⟩
  real_port := rport
  vlanid := 0
  bandwidth := 1000
  dev_ipaddr := nccpString devip

def setNextHop (ni : Shared.NodeInfo) (rtype : List UInt8) (rrouter : Bool) (ip devip mac : List UInt8) : Shared.NodeInfo :=
  { ni with nexthop := ⟨nccpString ip,nccpString rtype,rrouter,nccpString mac,nccpString devip⟩ }

/-- The body of the loop over the components. -/
def findEndsStep (fromcompid tocompid : UInt32) (found : Option EndComponent × Option EndComponent)
    (i : EndComponent) : Option EndComponent × Option EndComponent :=
  if fromcompid = tocompid ∧ i.comp.id = fromcompid then (some i,some i)
  else if i.comp.id = fromcompid then (some i,found.2)
  else if i.comp.id = tocompid then (found.1,some i)
  else found

/-- `fromcomp` and `tocomp`. The loop goes on after a match. -/
def findEnds (fromcompid tocompid : UInt32) (components : List EndComponent) :
    Option EndComponent × Option EndComponent :=
  components.foldl (findEndsStep fromcompid tocompid) (none,none)

/-- The link for a request; `vlanid` is the VLAN it is given afterwards. Without its components there is a null
pointer. -/
def commitLink (topology : List MappedLink) (components : List EndComponent) (sess : ExperimentInfo)
    (vlanid : UInt32) (req : AddLinkReq) : Option ConfiguredLink :=
  match findEnds req.source.comp.id req.target.comp.id components with
  | (some fromcomp,some tocomp) =>
    let mac1 := getMacaddr topology req.comp.id 1
    let mac2 := getMacaddr topology req.comp.id 1
    some {
      comp := req.comp
      p1 := {
        comp := fromcomp
        port := req.source.port
        rport := toUnsignedShort (getRealport topology req.comp.id 1)
        cap := getCapacity topology req.comp.id 1
        mac := mac1 }
      p2 := {
        comp := tocomp
        port := req.target.port
        rport := toUnsignedShort (getRealport topology req.comp.id 2)
        cap := getCapacity topology req.comp.id 2
        mac := mac2 }
      linkreq := req
      sess := some sess
      vlanid := vlanid }
  | _ => none

namespace ConfiguredLink

/-- There is no message without a session, of a link that is not new, or to a component that is no end of it. -/
def sendPortConfiguration (l : ConfiguredLink) (c : EndComponent) (use2 : Bool) : Option PortMessage :=
  if !l.isNew then none
  else match l.sess with
    | none => none
    | some info =>
      let exp : Experiment := ⟨.empty,0,info⟩
      if c.name = l.p1.comp.name ∧ !use2 ∧ c.comp.id = l.p1.comp.comp.id then
        let myip :=
          if l.p1.comp.comp.is_router then l.linkreq.target.nhip.getString else l.linkreq.source.ip.getString
        let nodeinfo := makeNodeInfo myip l.linkreq.source.subnet.getString l.p1.port.toUInt32 l.p1.rport.toUInt32
          l.p1.comp.devip
        let nodeinfo := setNextHop nodeinfo l.p2.comp.type l.p2.comp.comp.is_router
          l.linkreq.source.nhip.getString l.p2.comp.devip l.p2.mac
        some {
          exp
          comp := l.p1.comp.comp
          nodeConf := { nodeinfo with vlanid := l.vlanid, bandwidth := l.p1.cap }
          nccpconn := l.p1.comp.nccpconn }
      else if c.name = l.p2.comp.name ∧ c.comp.id = l.p2.comp.comp.id then
        let myip :=
          if l.p2.comp.comp.is_router then l.linkreq.source.nhip.getString else l.linkreq.target.ip.getString
        let nodeinfo := makeNodeInfo myip l.linkreq.target.subnet.getString l.p2.port.toUInt32 l.p2.rport.toUInt32
          l.p2.comp.devip
        let nodeinfo := setNextHop nodeinfo l.p1.comp.type l.p1.comp.comp.is_router
          l.linkreq.target.nhip.getString l.p1.comp.devip l.p1.mac
        some {
          exp
          comp := l.p2.comp.comp
          nodeConf := { nodeinfo with vlanid := l.vlanid, bandwidth := l.p2.cap }
          nccpconn := l.p2.comp.nccpconn }
      else none

def isLoopback (l : ConfiguredLink) : Bool := l.p1.comp.name = l.p2.comp.name && l.p1.comp.comp.id = l.p2.comp.comp.id

/-- What `do_initialize` of a component sends for the link. -/
def sentBy (l : ConfiguredLink) (c : EndComponent) : List PortMessage :=
  (l.sendPortConfiguration c false).toList ++
    if l.isLoopback then (l.sendPortConfiguration c true).toList else []

/-- What both components send, of which there is only one for a loopback link. -/
def messages (l : ConfiguredLink) : List PortMessage :=
  if l.isLoopback then l.sentBy l.p1.comp else l.sentBy l.p1.comp ++ l.sentBy l.p2.comp

/-- What a message should say: the own side `ndx` of the link and the own part of the request, and the type, device
address and MAC address of the other end. The address of a router is the next hop of the other end. -/
structure Configures (topology : List MappedLink) (label vlanid : UInt32) (ndx ndx' : ℕ) (own other : LinkEnd)
    (a b : EndComponent) (m : PortMessage) : Prop where
  comp : m.comp = a.comp
  conn : m.nccpconn = a.nccpconn
  port : m.nodeConf.port.toNat = own.port.toNat
  realPort : (m.nodeConf.real_port.toNat : ℤ) = getRealport topology label ndx
  capacity : m.nodeConf.bandwidth = getCapacity topology label ndx
  address : m.nodeConf.ipaddr = nccpString (if a.comp.is_router then other.nhip.getString else own.ip.getString)
  device : m.nodeConf.dev_ipaddr = nccpString a.devip
  subnet : m.nodeConf.subnet = nccpString own.subnet.getString
  vlan : m.nodeConf.vlanid = vlanid
  remoteType : m.nodeConf.nexthop.ntype = nccpString b.type
  remoteRouter : m.nodeConf.nexthop.is_router = b.comp.is_router
  remoteAddress : m.nodeConf.nexthop.ipaddr = nccpString own.nhip.getString
  remoteDevice : m.nodeConf.nexthop.dev_ipaddr = nccpString b.devip
  remoteMac : m.nodeConf.nexthop.mac_addr = nccpString (getMacaddr topology label ndx')

end ConfiguredLink

/-- The request for the same link from the other end. -/
def AddLinkReq.exchange (req : AddLinkReq) : AddLinkReq := { req with source := req.target, target := req.source }

/-- Both ends get a message that configures them, and the exchange of the ends exchanges the messages. -/
def Consistent (topology : List MappedLink) (components : List EndComponent) (sess : ExperimentInfo)
    (vlanid : UInt32) (req : AddLinkReq) : Prop :=
  ∃ l l' m1 m2, commitLink topology components sess vlanid req = some l ∧
    commitLink (topology.map MappedLink.exchange) components sess vlanid req.exchange = some l' ∧
    l.messages = [m1,m2] ∧ l'.messages = [m2,m1] ∧
    ConfiguredLink.Configures topology req.comp.id vlanid 1 2 req.source req.target l.p1.comp l.p2.comp m1 ∧
    ConfiguredLink.Configures topology req.comp.id vlanid 2 1 req.target req.source l.p2.comp l.p1.comp m2

/-- A number that `unsigned short` holds. -/
def IsShort (x : ℤ) : Prop := 0 ≤ x ∧ x < 65536

variable {topology : List MappedLink} {components : List EndComponent} {sess : ExperimentInfo} {vlanid label : UInt32}
variable {req : AddLinkReq} {source target : UInt32}

/-! ### The ends -/

/-- What has been found so far: components with the right numbers, and the same one for both if these are the same. -/
def FoundEnds (source target : UInt32) (found : Option EndComponent × Option EndComponent) : Prop :=
  (∀ a ∈ found.1, a.comp.id = source) ∧ (∀ b ∈ found.2, b.comp.id = target) ∧ (source = target → found.1 = found.2)

theorem FoundEnds.step {found : Option EndComponent × Option EndComponent} (h : FoundEnds source target found)
    (i : EndComponent) : FoundEnds source target (findEndsStep source target found i) := by
  obtain ⟨hfrom,hto,hsame⟩ := h
  unfold findEndsStep
  split
  · next h => exact ⟨by simp [h.2],by simp [h.2,h.1],fun _ => rfl⟩
  · next hne =>
    split
    · next h => exact ⟨by simp [h],hto,fun e => absurd ⟨e,h⟩ hne⟩
    · split
      · next hno h => exact ⟨hfrom,by simp [h],fun e => absurd (h.trans e.symm) hno⟩
      · exact ⟨hfrom,hto,hsame⟩

theorem foundEnds_foldl {found : Option EndComponent × Option EndComponent} (h : FoundEnds source target found) :
    FoundEnds source target (components.foldl (findEndsStep source target) found) := by
  induction components generalizing found with
  | nil => exact h
  | cons i components ih => exact ih (h.step i)

theorem foundEnds_findEnds : FoundEnds source target (findEnds source target components) :=
  foundEnds_foldl ⟨nofun,nofun,fun _ => rfl⟩

theorem findEndsStep_swap (found : Option EndComponent × Option EndComponent) (i : EndComponent) :
    findEndsStep target source found.swap i = (findEndsStep source target found i).swap := by
  unfold findEndsStep
  by_cases hs : i.comp.id = source
  · by_cases ht : i.comp.id = target
    · simp [hs,← ht]
    · have hne : source ≠ target := hs ▸ ht
      simp [hs,hne,hne.symm]
  · by_cases ht : i.comp.id = target
    · have hne : target ≠ source := ht ▸ hs
      simp [ht,hne,hne.symm]
    · simp [hs,ht]

theorem foldl_findEndsStep_swap (found : Option EndComponent × Option EndComponent) :
    components.foldl (findEndsStep target source) found.swap =
      (components.foldl (findEndsStep source target) found).swap :=
  List.foldl_hom Prod.swap findEndsStep_swap

theorem findEnds_swap : findEnds target source components = (findEnds source target components).swap :=
  foldl_findEndsStep_swap (none,none)

theorem isSome_findEndsStep (found : Option EndComponent × Option EndComponent) (i : EndComponent) :
    (findEndsStep source target found i).1.isSome ↔ found.1.isSome ∨ i.comp.id = source := by
  unfold findEndsStep
  by_cases hs : i.comp.id = source
  · by_cases hst : source = target <;> simp [hs,hst]
  · by_cases ht : i.comp.id = target
    · simp [hs]
      split <;> rfl
    · simp [hs,ht]

theorem isSome_foldl_findEndsStep (found : Option EndComponent × Option EndComponent) :
    (components.foldl (findEndsStep source target) found).1.isSome ↔
      found.1.isSome ∨ ∃ i ∈ components, i.comp.id = source := by
  induction components generalizing found with
  | nil => simp
  | cons i components ih => simp [ih,isSome_findEndsStep,or_assoc]

theorem isSome_findEnds_fst : (findEnds source target components).1.isSome ↔ ∃ i ∈ components, i.comp.id = source :=
  (isSome_foldl_findEndsStep (none,none)).trans (or_iff_right nofun)

theorem isSome_findEnds_snd : (findEnds source target components).2.isSome ↔ ∃ i ∈ components, i.comp.id = target := by
  have hfirst : (findEnds target source components).1.isSome ↔ ∃ i ∈ components, i.comp.id = target :=
    isSome_findEnds_fst
  rwa [findEnds_swap] at hfirst

theorem exists_findEnds : (∃ a b, findEnds source target components = (some a,some b)) ↔
    (∃ a ∈ components, a.comp.id = source) ∧ ∃ b ∈ components, b.comp.id = target := by
  rw [← isSome_findEnds_fst,← isSome_findEnds_snd,Option.isSome_iff_exists,Option.isSome_iff_exists]
  constructor
  · rintro ⟨a,b,h⟩
    rw [h]
    exact ⟨⟨a,rfl⟩,b,rfl⟩
  · rintro ⟨⟨a,ha⟩,b,hb⟩
    exact ⟨a,b,Prod.ext ha hb⟩

/-! ### The messages -/

/-- The message to one end, written once for both. -/
def portMessage (info : ExperimentInfo) (vlanid : UInt32) (own other : Endpoint) (ownReq otherReq : LinkEnd) :
    PortMessage where
  exp := ⟨.empty,0,info⟩
  comp := own.comp.comp
  nodeConf := {
    ipaddr := nccpString (if own.comp.comp.is_router then otherReq.nhip.getString else ownReq.ip.getString)
    subnet := nccpString ownReq.subnet.getString
    port := own.port.toUInt32
    nexthop := ⟨nccpString ownReq.nhip.getString,nccpString other.comp.type,other.comp.comp.is_router,
      nccpString other.mac,nccpString other.comp.devip⟩
    real_port := own.rport.toUInt32
    vlanid := vlanid
    bandwidth := own.cap
    dev_ipaddr := nccpString own.comp.devip }
  nccpconn := own.comp.nccpconn

namespace ConfiguredLink

variable {l : ConfiguredLink}

theorem messages_eq (hnew : l.isNew = true) (hsess : l.sess = some sess)
    (hsame : l.p1.comp.comp.id = l.p2.comp.comp.id → l.p1.comp = l.p2.comp) :
    l.messages = [portMessage sess l.vlanid l.p1 l.p2 l.linkreq.source l.linkreq.target,
      portMessage sess l.vlanid l.p2 l.p1 l.linkreq.target l.linkreq.source] := by
  have hfirst : l.sendPortConfiguration l.p1.comp false =
      some (portMessage sess l.vlanid l.p1 l.p2 l.linkreq.source l.linkreq.target) := by
    simp [sendPortConfiguration,hnew,hsess,portMessage,makeNodeInfo,setNextHop]
  by_cases hid : l.p1.comp.comp.id = l.p2.comp.comp.id
  · have hcomp := hsame hid
    have hloop : l.isLoopback = true := by simp [isLoopback,hcomp]
    have hsecond : l.sendPortConfiguration l.p1.comp true =
        some (portMessage sess l.vlanid l.p2 l.p1 l.linkreq.target l.linkreq.source) := by
      simp [sendPortConfiguration,hnew,hsess,hcomp,portMessage,makeNodeInfo,setNextHop]
    simp [messages,sentBy,hloop,hfirst,hsecond]
  · have hloop : l.isLoopback = false := by simp [isLoopback,hid]
    have hsecond : l.sendPortConfiguration l.p2.comp false =
        some (portMessage sess l.vlanid l.p2 l.p1 l.linkreq.target l.linkreq.source) := by
      simp [sendPortConfiguration,hnew,hsess,Ne.symm hid,portMessage,makeNodeInfo,setNextHop]
    simp [messages,sentBy,hloop,hfirst,hsecond]

end ConfiguredLink

/-- The link that `commitLink` makes of its ends. -/
def linkOf (topology : List MappedLink) (sess : ExperimentInfo) (vlanid : UInt32) (req : AddLinkReq)
    (a b : EndComponent) : ConfiguredLink where
  comp := req.comp
  p1 := ⟨a,req.source.port,toUnsignedShort (getRealport topology req.comp.id 1),getCapacity topology req.comp.id 1,
    getMacaddr topology req.comp.id 1⟩
  p2 := ⟨b,req.target.port,toUnsignedShort (getRealport topology req.comp.id 2),getCapacity topology req.comp.id 2,
    getMacaddr topology req.comp.id 1⟩
  linkreq := req
  sess := some sess
  vlanid := vlanid

theorem commitLink_eq_some {l : ConfiguredLink} :
    commitLink topology components sess vlanid req = some l ↔
      ∃ a b, findEnds req.source.comp.id req.target.comp.id components = (some a,some b) ∧
        l = linkOf topology sess vlanid req a b := by
  unfold commitLink
  split
  · next a b h =>
    rw [h]
    constructor
    · rintro ⟨⟩
      exact ⟨a,b,rfl,rfl⟩
    · rintro ⟨_,_,⟨⟩,rfl⟩
      rfl
  · next h =>
    refine iff_of_false nofun ?_
    rintro ⟨a,b,he,-⟩
    exact h a b he

theorem messages_linkOf (h : findEnds req.source.comp.id req.target.comp.id components = (some a,some b)) :
    (linkOf topology sess vlanid req a b).messages =
      [portMessage sess vlanid (linkOf topology sess vlanid req a b).p1 (linkOf topology sess vlanid req a b).p2
        req.source req.target,
      portMessage sess vlanid (linkOf topology sess vlanid req a b).p2 (linkOf topology sess vlanid req a b).p1
        req.target req.source] := by
  refine ConfiguredLink.messages_eq rfl rfl fun hid => ?_
  have hfound : FoundEnds req.source.comp.id req.target.comp.id
      (findEnds req.source.comp.id req.target.comp.id components) := foundEnds_findEnds
  rw [h] at hfound
  obtain ⟨hfrom,hto,hsame⟩ := hfound
  have hids : req.source.comp.id = req.target.comp.id := (hfrom a rfl).symm.trans (hid.trans (hto b rfl))
  exact Option.some.inj (hsame hids)

/-! ### The exchange -/

theorem mappedSide_exchange (ndx : ℕ) :
    mappedSide (topology.map MappedLink.exchange) label ndx = mappedSide topology label (if ndx = 1 then 2 else 1) := by
  unfold mappedSide
  rw [List.find?_map,Option.map_map]
  refine congrArg₂ _ (funext fun l => ?_) rfl
  unfold MappedLink.side MappedLink.exchange
  split
  · rfl
  · rfl

theorem toNat_toUnsignedShort {x : ℤ} : ((toUnsignedShort x).toUInt32.toNat : ℤ) = x ↔ IsShort x := by
  unfold toUnsignedShort IsShort
  rw [UInt16.toNat_toUInt32,UInt16.toNat_ofNat']
  omega

/-- The two MAC addresses are the same in a message. -/
def SameMac (topology : List MappedLink) (label : UInt32) : Prop :=
  nccpString (getMacaddr topology label 1) = nccpString (getMacaddr topology label 2)

/-- A message is right if the real port is a short one and the other end has its own MAC address. -/
theorem configures_portMessage {own other : Endpoint} {ownReq otherReq : LinkEnd} {ndx ndx' : ℕ}
    (hport : own.port = ownReq.port) (hrport : own.rport = toUnsignedShort (getRealport topology label ndx))
    (hcap : own.cap = getCapacity topology label ndx) :
    ConfiguredLink.Configures topology label vlanid ndx ndx' ownReq otherReq own.comp other.comp
        (portMessage sess vlanid own other ownReq otherReq) ↔
      IsShort (getRealport topology label ndx) ∧
        nccpString other.mac = nccpString (getMacaddr topology label ndx') := by
  constructor
  · intro h
    have hreal := h.realPort
    rw [portMessage,hrport] at hreal
    exact ⟨toNat_toUnsignedShort.mp hreal,h.remoteMac⟩
  · rintro ⟨hshort,hmac⟩
    refine ⟨rfl,rfl,?_,?_,hcap,rfl,rfl,rfl,rfl,rfl,rfl,rfl,rfl,hmac⟩
    · rw [portMessage,hport,UInt16.toNat_toUInt32]
    · rw [portMessage,hrport]
      exact toNat_toUnsignedShort.mpr hshort

/-- The exchanged link has the same ends, but for the MAC addresses. -/
theorem portMessage_exchange (sess : ExperimentInfo) (vlanid : UInt32) (hmac : SameMac topology req.comp.id) (a b : EndComponent) :
    let l := linkOf topology sess vlanid req a b
    let l' := linkOf (topology.map MappedLink.exchange) sess vlanid req.exchange b a
    portMessage sess vlanid l'.p1 l'.p2 req.target req.source = portMessage sess vlanid l.p2 l.p1 req.target req.source ∧
    portMessage sess vlanid l'.p2 l'.p1 req.source req.target =
      portMessage sess vlanid l.p1 l.p2 req.source req.target := by
  have hsides : ∀ ndx, mappedSide (topology.map MappedLink.exchange) req.exchange.comp.id ndx =
      mappedSide topology req.comp.id (if ndx = 1 then 2 else 1) := mappedSide_exchange
  unfold SameMac getMacaddr at hmac
  simp only [linkOf,portMessage,getRealport,getCapacity,getMacaddr,hsides,if_true,OfNat.ofNat_ne_one,if_false]
  rw [hmac]
  exact ⟨rfl,rfl⟩

theorem Consistent.right (h : Consistent topology components sess vlanid req) :
    (∃ a b, findEnds req.source.comp.id req.target.comp.id components = (some a,some b)) ∧
      SameMac topology req.comp.id ∧ IsShort (getRealport topology req.comp.id 1) ∧
      IsShort (getRealport topology req.comp.id 2) := by
  obtain ⟨l,l',m1,m2,hl,-,hm,-,h1,h2⟩ := h
  obtain ⟨a,b,hends,rfl⟩ := commitLink_eq_some.mp hl
  rw [messages_linkOf hends] at hm
  obtain ⟨rfl,rfl⟩ : _ = m1 ∧ _ = m2 := by simpa using hm
  obtain ⟨hshort1,hmac⟩ := (configures_portMessage rfl rfl rfl).mp h1
  obtain ⟨hshort2,-⟩ := (configures_portMessage rfl rfl rfl).mp h2
  exact ⟨⟨a,b,hends⟩,hmac,hshort1,hshort2⟩

/-- A link of two components of the session is configured consistently exactly if its MAC addresses are the same, as
both ends get the first of them, and its real ports are short ones. -/
theorem consistent_iff (topology : List MappedLink) (components : List EndComponent) (sess : ExperimentInfo)
    (vlanid : UInt32) (req : AddLinkReq) :
    Consistent topology components sess vlanid req ↔
      (∃ a ∈ components, a.comp.id = req.source.comp.id) ∧ (∃ b ∈ components, b.comp.id = req.target.comp.id) ∧
      SameMac topology req.comp.id ∧ IsShort (getRealport topology req.comp.id 1) ∧
      IsShort (getRealport topology req.comp.id 2) := by
  rw [← and_assoc,← exists_findEnds]
  refine ⟨Consistent.right,?_⟩
  rintro ⟨⟨a,b,hends⟩,hmac,hshort1,hshort2⟩
  have hends' : findEnds req.exchange.source.comp.id req.exchange.target.comp.id components = (some b,some a) :=
    findEnds_swap.trans (congrArg Prod.swap hends)
  obtain ⟨hex1,hex2⟩ := portMessage_exchange sess vlanid hmac a b
  refine ⟨_,_,_,_,commitLink_eq_some.mpr ⟨a,b,hends,rfl⟩,commitLink_eq_some.mpr ⟨b,a,hends',rfl⟩,
    messages_linkOf hends,?_,?_,?_⟩
  · rw [messages_linkOf hends']
    exact congrArg₂ (fun x y => [x,y]) hex1 hex2
  · exact (configures_portMessage rfl rfl rfl).mpr ⟨hshort1,hmac⟩
  · exact (configures_portMessage rfl rfl rfl).mpr ⟨hshort2,rfl⟩

/-- A host with the number `id`. -/
def host (id : UInt32) : EndComponent where
  name := [id.toUInt8]
  type := []
  devip := []
  comp := ⟨.empty,id,0,.empty,.empty,false⟩
  nccpconn := 0

/-- A link from the host 2 to the host 3. -/
def hostLink : AddLinkReq where
  type := 0
  version := 0x80
  op := 0
  rend := ⟨0,0,0,0,0,0,0,0,0⟩
  periodic_message := false
  period := ⟨0,0⟩
  expinfo := ⟨.empty,.empty,.empty⟩
  comp := ⟨.empty,1,0,.empty,.empty,false⟩
  source := ⟨(host 2).comp,0,.empty,.empty,.empty,1000⟩
  target := ⟨(host 3).comp,0,.empty,.empty,.empty,1000⟩
  bandwidth := 1000

/-- The two hosts have MAC addresses of their own. -/
def twoHosts : List MappedLink := [⟨1,⟨1,1000,[49]⟩,⟨1,1000,[50]⟩⟩]

theorem twoHosts_not_consistent :
    ¬∀ topology components sess vlanid req, (∃ a ∈ components, a.comp.id = req.source.comp.id) →
      (∃ b ∈ components, b.comp.id = req.target.comp.id) → Consistent topology components sess vlanid req := by
  intro h
  have hright := (h twoHosts [host 2,host 3] hostLink.expinfo 7 hostLink ⟨_,.head _,rfl⟩
    ⟨_,.tail _ (.head _),rfl⟩).right
  exact absurd hright.2.1 (by unfold SameMac; decide)

end OnlDaemons.Crd
