import OnlDaemons.Npr.ArpTable
import OnlDaemons.Npr.DataPath

/-!
# The MAC address of a released packet

An ARP packet is read from DRAM, and the packets that wait for its sender are released with the address that it has. The
address is split in three places: in the buffer descriptor for the multiplexer, in the message for a plugin and in the
SRAM results of the entries. Which packets are released and which results are written is `Npr.processArpPacket`.

## Main definitions

- `ArpPacket` — the packet
- `sendPacketToDataPath`, `releaseAll` — what is written for a packet, and for those that wait
- `writeNextHop` — the words of a result
- `processArpPacket`
- `headerMac`, `CarriesMac` — the address put together again

## Main results

- `headerMac_sendPacketToDataPath` — for one packet
- `releaseAll_sendWaiting` — the packets that are released are those of the request table
- `carriesMac_iff`
-/

namespace OnlDaemons.Npr
open OnlDaemons.Lib ByteMemory

namespace DataPath

/-! ### Words -/

/-- The fields of `arp_packet` that are looked at. -/
structure ArpPacket where
  hwType : BitVec 16
  protoType : BitVec 16
  hwLength : BitVec 8
  protoLength : BitVec 8
  operation : BitVec 16
  srcHwAddrHi16 : BitVec 16
  srcHwAddrLow32 : BitVec 32
  srcProtoAddr : BitVec 32
deriving DecidableEq

def ArpPacket.ofWords (v : List Word) : ArpPacket where
  hwType := (v.getD 3 0).extractLsb' 0 16
  protoType := (v.getD 4 0).extractLsb' 16 16
  hwLength := (v.getD 4 0).extractLsb' 8 8
  protoLength := (v.getD 4 0).extractLsb' 0 8
  operation := (v.getD 5 0).extractLsb' 16 16
  srcHwAddrHi16 := (v.getD 5 0).extractLsb' 0 16
  srcHwAddrLow32 := v.getD 6 0
  srcProtoAddr := v.getD 7 0

/-- The address that is learned. -/
def ArpPacket.mac (pkt : ArpPacket) : BitVec 48 := pkt.srcHwAddrHi16 ++ pkt.srcHwAddrLow32

/-- The packet is not dropped. -/
def ArpPacket.Good (pkt : ArpPacket) : Prop :=
  pkt.hwType = 1 ∧ pkt.protoType = 0x0800 ∧ pkt.hwLength = 6 ∧ pkt.protoLength = 4 ∧
    (pkt.operation = 1 ∨ pkt.operation = 2)

instance (pkt : ArpPacket) : Decidable pkt.Good := inferInstanceAs (Decidable (_ ∧ _ ∧ _ ∧ _ ∧ _))

/-- `afilter_result` -/
structure AfilterResult where
  entryValid : BitVec 1
  nhIpValid : BitVec 1
  nhMacValid : BitVec 1
  ipMcValid : BitVec 1
  sampling : BitVec 2
  res : BitVec 2
  drop : BitVec 1
  pps : BitVec 1
  outPort : BitVec 3
  outPlugin : BitVec 3
  qid : BitVec 16
  statsIndex : BitVec 16
  nhHi16 : BitVec 16
  nhLow32 : BitVec 32
deriving DecidableEq

namespace AfilterResult

def v (r : AfilterResult) : List Word :=
  [r.entryValid ++ r.nhIpValid ++ r.nhMacValid ++ r.ipMcValid ++ r.sampling ++ r.res ++ r.drop ++ r.pps ++ r.outPort ++
    r.outPlugin ++ r.qid, r.statsIndex ++ r.nhHi16, r.nhLow32]

def ofWords (v : List Word) : AfilterResult where
  entryValid := (v.getD 0 0).extractLsb' 31 1
  nhIpValid := (v.getD 0 0).extractLsb' 30 1
  nhMacValid := (v.getD 0 0).extractLsb' 29 1
  ipMcValid := (v.getD 0 0).extractLsb' 28 1
  sampling := (v.getD 0 0).extractLsb' 26 2
  res := (v.getD 0 0).extractLsb' 24 2
  drop := (v.getD 0 0).extractLsb' 23 1
  pps := (v.getD 0 0).extractLsb' 22 1
  outPort := (v.getD 0 0).extractLsb' 19 3
  outPlugin := (v.getD 0 0).extractLsb' 16 3
  qid := (v.getD 0 0).extractLsb' 0 16
  statsIndex := (v.getD 1 0).extractLsb' 16 16
  nhHi16 := (v.getD 1 0).extractLsb' 0 16
  nhLow32 := v.getD 2 0

/-- The address of the next hop, when `nhMacValid` says that there is one. -/
def mac (r : AfilterResult) : Option (BitVec 48) := if r.nhMacValid = 1 then some (r.nhHi16 ++ r.nhLow32) else none

theorem ofWords_v (r : AfilterResult) : ofWords r.v = r := by
  simp (disch := decide) only [ofWords, v, List.getD_cons_zero, List.getD_cons_succ, BitVec.extractLsb'_append_eq_of_le,
    BitVec.extractLsb'_append_eq_of_add_le, Nat.reduceSub, BitVec.extractLsb'_eq_self]

end AfilterResult

/-! ### One packet -/

/-- What the request table looks at. -/
def view (msg : PlcToXscaleData) : Npr.DataPathMessage where
  type := if msg.arpSource = 1 then .dip else .nhr
  destValue := msg.destValue.toNat
  ucMcBits := msg.ucMcBits.toNat

/-- Words 3 to 5 of a buffer descriptor. -/
def writeNextHopDesc (s : DataPath) (msg : PlcToXscaleData) (hi16 : BitVec 16) (low32 : BitVec 32) : DataPath :=
  let bufDescAddr : Word := msg.bufHandle.setWidth 32 <<< 2
  let sram := Function.update s.sram (bufDescAddr + 12) (msg.statsIndex.setWidth 32 <<< 16 ||| hi16.setWidth 32)
  let sram := Function.update sram (bufDescAddr + 16) low32
  { s with sram := Function.update sram (bufDescAddr + 20) (msg.ethertype.setWidth 32 <<< 16) }

def releasedToMux (msg : PlcToXscaleData) : XscaleToMuxData :=
  let outPort : BitVec 4 := ((msg.ucMcBits >>> 3) &&& 0x7).setWidth 4
  { outPort
    bufHandle := msg.bufHandle
    l3PktLength := msg.l3PktLength
    qid := ((outPort.setWidth 32 + 1 : Word) <<< 13 ||| (msg.qid.setWidth 32 &&& 0x1fff)).setWidth 16
    ptag := msg.ptag
    inPort := msg.inPort
    passThrough := 1
    statsIndex := msg.statsIndex }

def releasedToPlugin (msg : PlcToXscaleData) (hi16 : BitVec 16) (low32 : BitVec 32) : PlcToXscaleData :=
  { msg with
    destValue := (hi16.setWidth 32 <<< 16) &&& (low32 >>> 16)
    nhMacLow16 := (low32 &&& 0xffff).setWidth 16
    arpSource := 0
    arpNeeded := 0 }

/-- `send_packet_to_data_path`. The address is that of the request. -/
def sendPacketToDataPath (hi16 : BitVec 16) (low32 : BitVec 32) (s : DataPath) (msg : PlcToXscaleData) :
    Except String Unit × DataPath :=
  let s := s.writeNextHopDesc msg hi16 low32
  let upps := (msg.ucMcBits >>> 6) &&& 1
  if upps = 0 then
    let data := releasedToMux msg
    let s := s.writemsg ⟨.mux, data.v⟩
    (.ok (), { s with stats := s.stats ++ [(data.statsIndex, data.l3PktLength)] })
  else
    let outPlugin := (msg.ucMcBits &&& 0x7).toNat
    if h : outPlugin < 5 then (.ok (), s.writemsg ⟨.plugin ⟨outPlugin, h⟩, (releasedToPlugin msg hi16 low32).v⟩)
    else (.error "packet bound for invalid plugin!", s)

/-- The address in the header of the last packet. For the multiplexer it is in the descriptor of the buffer, and a plugin
gets its high 32 bits in `dest_value`. -/
def headerMac (s : DataPath) : Option (BitVec 48) :=
  s.sent.getLast?.bind fun m =>
    match m.association with
    | .mux =>
      let bufDescAddr : Word := ((m.msg.getD 0 0).extractLsb' 0 24).setWidth 32 <<< 2
      some ((s.sram (bufDescAddr + 12)).extractLsb' 0 16 ++ s.sram (bufDescAddr + 16))
    | .plugin _ => some (m.msg.getD 3 0 ++ (m.msg.getD 4 0).extractLsb' 16 16)
    | .flm => none

/-! ### All packets that wait -/

/-- The packets one after the other, each with the state when it is released, until one cannot be sent. -/
def releaseAll (hi16 : BitVec 16) (low32 : BitVec 32) :
    List PlcToXscaleData → DataPath → Except String Unit × List (PlcToXscaleData × DataPath) × DataPath
  | [], s => (.ok (), [], s)
  | msg :: msgs, s =>
    match s.sendPacketToDataPath hi16 low32 msg with
    | (.error text, s) => (.error text, [], s)
    | (.ok (), s) =>
      let (result, released, t) := releaseAll hi16 low32 msgs s
      (result, (msg, s) :: released, t)

/-- The result of an entry is read, changed and written again. -/
def writeNextHop (results : Word → Word) (addr : Word) (hi16 : BitVec 16) (low32 : BitVec 32) : List Word :=
  let afr := AfilterResult.ofWords [results addr, results (addr + 4), results (addr + 8)]
  { afr with nhIpValid := 0, nhMacValid := 1, nhHi16 := hi16, nhLow32 := low32 }.v

/-- `written` has the words of each result with their address. -/
def writeNextHops (results : Word → Word) : List SramWrite → List (Word × List Word)
  | [] => []
  | w :: ws =>
    let addr : Word := BitVec.ofNat 32 w.addr + 0x400000
    let v := writeNextHop results addr (BitVec.ofNat 16 w.hi16) (BitVec.ofNat 32 w.low32)
    let results := Function.update results addr (v.getD 0 0)
    let results := Function.update results (addr + 4) (v.getD 1 0)
    let results := Function.update results (addr + 8) (v.getD 2 0)
    (addr, v) :: writeNextHops results ws

/-- What `process_arp_packet` leaves behind when it has released the lock. -/
structure Released where
  requests : List (RequestNode PlcToXscaleData)
  released : List (PlcToXscaleData × DataPath) := []
  written : List (Word × List Word) := []
  path : DataPath

/-- The packet that the message is about. -/
def arpPacket (s : DataPath) (msg : PlcToXscaleData) : ArpPacket :=
  .ofWords (readWords s.dram (s.dramAddr msg - 14) 11)

/-- The packets that wait for the sender of an ARP packet, the one for its own address first. -/
def waitingFor (pkt : ArpPacket) (requests : List (RequestNode PlcToXscaleData)) : List PlcToXscaleData :=
  match findRequest pkt.srcProtoAddr.toNat requests with
  | some req => if req.state = .outstanding then req.msgs else []
  | none => []

/-- `conf` is how the call to the configuration ends, and `results` is the bank with the SRAM results. -/
def processArpPacket (s : DataPath) (results : Word → Word) (requests : List (RequestNode PlcToXscaleData))
    (conf : Except String Unit) (msg : PlcToXscaleData) : Released :=
  let pkt := s.arpPacket msg
  if pkt.Good then
    let out := Npr.processArpPacket view pkt.srcProtoAddr.toNat pkt.srcHwAddrHi16.toNat pkt.srcHwAddrLow32.toNat conf
      requests
    let (_, released, path) := releaseAll pkt.srcHwAddrHi16 pkt.srcHwAddrLow32 (waitingFor pkt requests) s
    { requests := out.requests, released, written := writeNextHops results out.writes, path }
  else { requests, path := s.drop msg }

/-- Each packet that was released and each result that was written has this address. -/
structure CarriesMac (mac : BitVec 48) (out : Released) : Prop where
  released : ∀ p ∈ out.released, p.2.headerMac = some mac
  written : ∀ w ∈ out.written, (AfilterResult.ofWords w.2).mac = some mac

/-! ### The header of one packet -/

variable {s t : DataPath} {msg : PlcToXscaleData} {hi16 : BitVec 16} {low32 : BitVec 32}

/-- The packet goes to a plugin. -/
def ToPlugin (msg : PlcToXscaleData) : Prop := (msg.ucMcBits >>> 6) &&& 1 ≠ 0

instance (msg : PlcToXscaleData) : Decidable (ToPlugin msg) := inferInstanceAs (Decidable (¬_))

/-- The table and the data path agree on which packets can be sent. -/
theorem sendPacketToDataPath_fst (hi16 : BitVec 16) (low32 : BitVec 32) (s : DataPath) (msg : PlcToXscaleData) :
    (s.sendPacketToDataPath hi16 low32 msg).1 = Npr.sendPacketToDataPath (view msg) := by
  have hbit : (msg.ucMcBits >>> 6) &&& 1 = 0 ↔ msg.ucMcBits.toNat >>> 6 &&& 1 = 0 := by
    rw [← BitVec.toNat_inj, BitVec.toNat_and, BitVec.toNat_ushiftRight]
    rfl
  have hplugin : (msg.ucMcBits &&& 0x7).toNat < 5 ↔ msg.ucMcBits.toNat &&& 0x7 ≤ 4 := by
    rw [BitVec.toNat_and]
    exact Nat.lt_succ_iff
  unfold sendPacketToDataPath Npr.sendPacketToDataPath view
  by_cases hmux : (msg.ucMcBits >>> 6) &&& 1 = 0
  · rw [if_pos hmux, if_pos (hbit.1 hmux)]
  · rw [if_neg hmux, if_neg (mt hbit.2 hmux)]
    by_cases hle : (msg.ucMcBits &&& 0x7).toNat < 5
    · rw [dif_pos hle, if_pos (hplugin.1 hle)]
    · rw [dif_neg hle, if_neg (mt hplugin.2 hle)]

theorem low_of_or (a b : BitVec 16) : (a.setWidth 32 <<< 16 ||| b.setWidth 32 : Word).extractLsb' 0 16 = b := by
  apply BitVec.eq_of_getLsbD_eq
  intro i hi
  simp [hi]
  omega

/-- The words have no bit in common. -/
theorem high_and_low (a : BitVec 16) (v : Word) : (a.setWidth 32 <<< 16 : Word) &&& (v >>> 16) = 0 := by
  apply BitVec.eq_of_getLsbD_eq
  intro i hi
  simp
  grind

theorem mask_eq_extract (v : Word) : (v &&& 0xffff).setWidth 16 = v.extractLsb' 0 16 := by
  have hmask : ∀ i < 16, (0xffff : Word).getLsbD i = true := by decide
  apply BitVec.eq_of_getLsbD_eq
  intro i hi
  rw [BitVec.getLsbD_setWidth, BitVec.getLsbD_and, hmask i hi]
  simp

theorem getLast?_writemsg (s : DataPath) (m : DataPathMessage) : (s.writemsg m).sent.getLast? = some m :=
  List.getLast?_concat

theorem sram_writeNextHopDesc (s : DataPath) (msg : PlcToXscaleData) (hi16 : BitVec 16) (low32 : BitVec 32) :
    (s.writeNextHopDesc msg hi16 low32).sram ((msg.bufHandle.setWidth 32 <<< 2) + 12) =
      msg.statsIndex.setWidth 32 <<< 16 ||| hi16.setWidth 32 ∧
    (s.writeNextHopDesc msg hi16 low32).sram ((msg.bufHandle.setWidth 32 <<< 2) + 16) = low32 := by
  have hne : ∀ {a x y : Word}, x ≠ y → a + x ≠ a + y := fun hxy heq => hxy ((BitVec.add_right_inj _).1 heq)
  constructor
  · refine (Function.update_of_ne (hne ?_) ..).trans ((Function.update_of_ne (hne ?_) ..).trans (Function.update_self ..))
    all_goals decide
  · refine (Function.update_of_ne (hne ?_) ..).trans (Function.update_self ..)
    decide

theorem headerMac_mux (h : s.sendPacketToDataPath hi16 low32 msg = (.ok (), t)) (hmux : ¬ToPlugin msg) :
    t.headerMac = some (hi16 ++ low32) := by
  have hzero : (msg.ucMcBits >>> 6) &&& 1 = 0 := not_not.1 hmux
  rw [sendPacketToDataPath, if_pos hzero] at h
  cases h
  have hhandle : ((releasedToMux msg).v.getD 0 0).extractLsb' 0 24 = msg.bufHandle := by
    simp (disch := decide) only [XscaleToMuxData.v, List.getD_cons_zero, BitVec.extractLsb'_append_eq_of_add_le,
      BitVec.extractLsb'_eq_self, releasedToMux]
  have hlast := getLast?_writemsg (s.writeNextHopDesc msg hi16 low32) ⟨.mux, (releasedToMux msg).v⟩
  obtain ⟨hhi, hlow⟩ := sram_writeNextHopDesc s msg hi16 low32
  simp only [headerMac, hlast, Option.bind_some, hhandle]
  exact congrArg some (congrArg₂ (· ++ ·) ((congrArg (BitVec.extractLsb' 0 16) hhi).trans (low_of_or ..)) hlow)

theorem headerMac_plugin (h : s.sendPacketToDataPath hi16 low32 msg = (.ok (), t)) (hplugin : ToPlugin msg) :
    t.headerMac = some ((0 : BitVec 32) ++ low32.extractLsb' 0 16) := by
  rw [sendPacketToDataPath, if_neg hplugin] at h
  by_cases hfive : (msg.ucMcBits &&& 0x7).toNat < 5
  · rw [dif_pos hfive] at h
    cases h
    have hlow : ((releasedToPlugin msg hi16 low32).v.getD 4 0).extractLsb' 16 16 = low32.extractLsb' 0 16 :=
      BitVec.extractLsb'_append_eq_left.trans (mask_eq_extract _)
    have hhigh : (releasedToPlugin msg hi16 low32).v.getD 3 0 = 0 := high_and_low ..
    simp only [headerMac, getLast?_writemsg, Option.bind_some, hhigh, hlow]
  · rw [dif_neg hfive] at h
    cases h

/-- The high 32 bits of an address. -/
def high32 (mac : BitVec 48) : BitVec 32 := mac.extractLsb' 16 32

theorem zero_append_iff (hi16 : BitVec 16) (low32 : BitVec 32) :
    (0 : BitVec 32) ++ low32.extractLsb' 0 16 = hi16 ++ low32 ↔ high32 (hi16 ++ low32) = 0 := by
  have hlow : (hi16 ++ low32).extractLsb' 0 16 = low32.extractLsb' 0 16 :=
    BitVec.extractLsb'_append_eq_of_add_le (by decide)
  have hsplit : high32 (hi16 ++ low32) ++ low32.extractLsb' 0 16 = hi16 ++ low32 := by
    rw [high32, ← hlow]
    exact BitVec.extractLsb'_append_extractLsb'
  constructor
  · intro h
    rw [← h]
    exact BitVec.extractLsb'_append_eq_left
  · intro h
    rw [← h]
    exact hsplit

/-- A packet for the multiplexer has the address. A packet for a plugin has only its low 16 bits. -/
theorem headerMac_sendPacketToDataPath (h : s.sendPacketToDataPath hi16 low32 msg = (.ok (), t)) :
    t.headerMac = some (hi16 ++ low32) ↔ (ToPlugin msg → high32 (hi16 ++ low32) = 0) := by
  by_cases hplugin : ToPlugin msg
  · rw [headerMac_plugin h hplugin, Option.some_inj, zero_append_iff]
    exact ⟨fun hz _ => hz, fun hz => hz hplugin⟩
  · exact ⟨fun _ hp => absurd hp hplugin, fun _ => headerMac_mux h hplugin⟩

/-! ### All packets that wait -/

variable {requests : List (RequestNode PlcToXscaleData)} {results : Word → Word} {conf : Except String Unit}
  {pkt : ArpPacket} {msgs : List PlcToXscaleData}

/-- The packet can be sent. -/
def Sendable (msg : PlcToXscaleData) : Prop := Npr.sendPacketToDataPath (view msg) = .ok ()

instance (msg : PlcToXscaleData) : Decidable (Sendable msg) :=
  match h : Npr.sendPacketToDataPath (view msg) with
  | .ok () => .isTrue h
  | .error _ => .isFalse fun hok => nomatch h.symm.trans hok

theorem sendPacketToDataPath_eq (hi16 : BitVec 16) (low32 : BitVec 32) (s : DataPath) (msg : PlcToXscaleData) :
    s.sendPacketToDataPath hi16 low32 msg =
      (Npr.sendPacketToDataPath (view msg), (s.sendPacketToDataPath hi16 low32 msg).2) := by
  rw [← sendPacketToDataPath_fst hi16 low32 s msg]

theorem releaseAll_cons_of_sendable (h : Sendable msg) : releaseAll hi16 low32 (msg :: msgs) s =
    ((releaseAll hi16 low32 msgs (s.sendPacketToDataPath hi16 low32 msg).2).1,
      (msg, (s.sendPacketToDataPath hi16 low32 msg).2) ::
        (releaseAll hi16 low32 msgs (s.sendPacketToDataPath hi16 low32 msg).2).2.1,
      (releaseAll hi16 low32 msgs (s.sendPacketToDataPath hi16 low32 msg).2).2.2) := by
  have hok : s.sendPacketToDataPath hi16 low32 msg = (.ok (), (s.sendPacketToDataPath hi16 low32 msg).2) := by
    rw [sendPacketToDataPath_eq, h]
  rw [releaseAll, hok]

theorem releaseAll_cons_of_error {text : String} (h : Npr.sendPacketToDataPath (view msg) = .error text) :
    releaseAll hi16 low32 (msg :: msgs) s = (.error text, [], (s.sendPacketToDataPath hi16 low32 msg).2) := by
  have herror : s.sendPacketToDataPath hi16 low32 msg = (.error text, (s.sendPacketToDataPath hi16 low32 msg).2) := by
    rw [sendPacketToDataPath_eq, h]
  rw [releaseAll, herror]

/-- The packets that are released are those before the first one that cannot be sent. -/
theorem map_fst_releaseAll : (releaseAll hi16 low32 msgs s).2.1.map Prod.fst = msgs.takeWhile (Sendable ·) := by
  induction msgs generalizing s with
  | nil => rfl
  | cons msg msgs ih =>
    cases hsend : Npr.sendPacketToDataPath (view msg) with
    | ok u =>
      have hs : Sendable msg := hsend
      rw [releaseAll_cons_of_sendable hs, List.map_cons, ih]
      exact (List.takeWhile_cons_of_pos (p := (Sendable ·)) (decide_eq_true hs)).symm
    | error text =>
      have hs : ¬Sendable msg := fun hok => nomatch hsend.symm.trans hok
      rw [releaseAll_cons_of_error hsend]
      exact (List.takeWhile_cons_of_neg (by rwa [decide_eq_true_iff])).symm

/-- Each of them was released in some state. -/
theorem mem_releaseAll {p : PlcToXscaleData × DataPath} (hp : p ∈ (releaseAll hi16 low32 msgs s).2.1) :
    ∃ u : DataPath, u.sendPacketToDataPath hi16 low32 p.1 = (.ok (), p.2) := by
  induction msgs generalizing s with
  | nil => cases hp
  | cons msg msgs ih =>
    cases hsend : Npr.sendPacketToDataPath (view msg) with
    | ok u =>
      have hs : Sendable msg := hsend
      rw [releaseAll_cons_of_sendable hs, List.mem_cons] at hp
      rcases hp with rfl | hp
      · exact ⟨s, by rw [sendPacketToDataPath_eq, hsend]⟩
      · exact ih hp
    | error text =>
      rw [releaseAll_cons_of_error hsend] at hp
      cases hp

/-- The loop over the next hop entries releases the packets that `sendNhrs` sends. -/
theorem releaseAll_sendNhrs (l : List (NhrNode PlcToXscaleData)) :
    (releaseAll hi16 low32 (nhrMsgs l) s).1 = (sendNhrs view l).1 ∧
      (releaseAll hi16 low32 (nhrMsgs l) s).2.1.map Prod.fst = (sendNhrs view l).2.1 := by
  induction l generalizing s with
  | nil => exact ⟨rfl, rfl⟩
  | cons n l ih =>
    cases hn : n.nhrMsg with
    | none =>
      have hmsgs : nhrMsgs (n :: l) = nhrMsgs l := by
        rw [nhrMsgs, List.filterMap_cons, hn]
        rfl
      rw [hmsgs, sendNhrs, hn]
      exact ih
    | some m =>
      have hmsgs : nhrMsgs (n :: l) = m :: nhrMsgs l := by
        rw [nhrMsgs, List.filterMap_cons, hn]
        rfl
      rw [hmsgs, sendNhrs, hn]
      cases hsend : Npr.sendPacketToDataPath (view m) with
      | ok u =>
        obtain ⟨hresult, hsent⟩ := @ih (s.sendPacketToDataPath hi16 low32 m).2
        rw [releaseAll_cons_of_sendable hsend]
        simp only [hsend]
        exact ⟨hresult, congrArg (m :: ·) hsent⟩
      | error text =>
        rw [releaseAll_cons_of_error hsend]
        simp only [hsend, List.map_nil, and_self]

/-- The packets that are released are those of the request table. -/
theorem releaseAll_sendWaiting (r : RequestNode PlcToXscaleData) :
    (releaseAll hi16 low32 r.msgs s).1 = (sendWaiting view r).1 ∧
      (releaseAll hi16 low32 r.msgs s).2.1.map Prod.fst = (sendWaiting view r).2.1 := by
  cases hd : r.dipMsg with
  | none =>
    have hmsgs : r.msgs = nhrMsgs r.nhrList := by
      rw [RequestNode.msgs, hd]
      rfl
    rw [hmsgs, sendWaiting, hd]
    exact releaseAll_sendNhrs _
  | some m =>
    have hmsgs : r.msgs = m :: nhrMsgs r.nhrList := by
      rw [RequestNode.msgs, hd]
      rfl
    rw [hmsgs, sendWaiting, hd]
    cases hsend : Npr.sendPacketToDataPath (view m) with
    | ok u =>
      obtain ⟨hresult, hsent⟩ := @releaseAll_sendNhrs (s.sendPacketToDataPath hi16 low32 m).2 hi16 low32 r.nhrList
      rw [releaseAll_cons_of_sendable hsend]
      simp only [Option.map_some, hsend]
      exact ⟨hresult, congrArg (m :: ·) hsent⟩
    | error text =>
      rw [releaseAll_cons_of_error hsend]
      simp only [Option.map_some, hsend, List.map_nil, and_self]

/-! ### The results -/

theorem mac_writeNextHop (addr : Word) : (AfilterResult.ofWords (writeNextHop results addr hi16 low32)).mac =
    some (hi16 ++ low32) := by
  rw [writeNextHop, AfilterResult.ofWords_v]
  rfl

/-- Each result has the address it was written for. -/
theorem mem_writeNextHops {ws : List SramWrite} {p : Word × List Word} (hp : p ∈ writeNextHops results ws) :
    ∃ w ∈ ws, (AfilterResult.ofWords p.2).mac = some (BitVec.ofNat 16 w.hi16 ++ BitVec.ofNat 32 w.low32) := by
  induction ws generalizing results with
  | nil => cases hp
  | cons w ws ih =>
    rw [writeNextHops, List.mem_cons] at hp
    rcases hp with rfl | hp
    · exact ⟨w, List.mem_cons_self .., mac_writeNextHop _⟩
    · obtain ⟨x, hx, hmac⟩ := ih hp
      exact ⟨x, List.mem_cons_of_mem _ hx, hmac⟩

/-- The loop over the waiting packets keeps the address of the request. -/
theorem sendWaiting_mac (r : RequestNode PlcToXscaleData) :
    (sendWaiting view r).2.2.macaddrHi16 = r.macaddrHi16 ∧ (sendWaiting view r).2.2.macaddrLow32 = r.macaddrLow32 := by
  unfold sendWaiting
  split
  all_goals exact ⟨rfl, rfl⟩

theorem mem_nhrWrites {r : RequestNode PlcToXscaleData} {w : SramWrite} (hw : w ∈ r.nhrWrites) :
    w.hi16 = r.macaddrHi16 ∧ w.low32 = r.macaddrLow32 := by
  obtain ⟨n, -, rfl⟩ := List.mem_map.1 hw
  exact ⟨rfl, rfl⟩

theorem mem_writes_processRequest {r : RequestNode PlcToXscaleData} {w : SramWrite}
    (hw : w ∈ (processRequest view conf r).2.2.2.1) : w.hi16 = r.macaddrHi16 ∧ w.low32 = r.macaddrLow32 := by
  have hkept : ∀ r', (if r.state = .outstanding then sendWaiting view r else (.ok (), [], r)).2.2 = r' →
      r'.macaddrHi16 = r.macaddrHi16 ∧ r'.macaddrLow32 = r.macaddrLow32 := by
    rintro _ rfl
    split
    · exact sendWaiting_mac r
    · exact ⟨rfl, rfl⟩
  unfold processRequest at hw
  rcases hx : (if r.state = .outstanding then sendWaiting view r else (.ok (), [], r)) with ⟨result, sent, r'⟩
  obtain ⟨hhi, hlow⟩ := hkept r' (by rw [hx])
  rw [hx] at hw
  cases result with
  | error text => cases hw
  | ok u =>
    cases conf with
    | error text => cases hw
    | ok u =>
      have hsame := mem_nhrWrites hw
      exact ⟨hsame.1.trans hhi, hsame.2.trans hlow⟩

theorem mem_writes_processArpPacket {ipaddr hi low : ℕ} {w : SramWrite}
    (hw : w ∈ (Npr.processArpPacket view ipaddr hi low conf requests).writes) : w.hi16 = hi ∧ w.low32 = low := by
  unfold Npr.processArpPacket at hw
  cases hfind : findRequest ipaddr requests with
  | none =>
    rw [hfind] at hw
    cases conf <;> cases hw
  | some req =>
    rw [hfind] at hw
    exact mem_writes_processRequest hw

/-! ### An ARP packet -/

/-- The packets that an ARP packet releases. -/
def releasedFor (s : DataPath) (requests : List (RequestNode PlcToXscaleData)) (msg : PlcToXscaleData) :
    List PlcToXscaleData :=
  if (s.arpPacket msg).Good then (waitingFor (s.arpPacket msg) requests).takeWhile (Sendable ·) else []

theorem mem_released {p : PlcToXscaleData × DataPath} (hp : p ∈ (processArpPacket s results requests conf msg).released) :
    ∃ u : DataPath, u.sendPacketToDataPath (s.arpPacket msg).srcHwAddrHi16 (s.arpPacket msg).srcHwAddrLow32 p.1 =
      (.ok (), p.2) := by
  unfold processArpPacket at hp
  by_cases hgood : (s.arpPacket msg).Good
  · simp only [if_pos hgood] at hp
    exact mem_releaseAll hp
  · simp only [if_neg hgood] at hp
    cases hp

theorem map_fst_released : (processArpPacket s results requests conf msg).released.map Prod.fst =
    releasedFor s requests msg := by
  unfold processArpPacket releasedFor
  by_cases hgood : (s.arpPacket msg).Good
  · simp only [if_pos hgood]
    exact map_fst_releaseAll
  · simp only [if_neg hgood]
    rfl

theorem mac_written {p : Word × List Word} (hp : p ∈ (processArpPacket s results requests conf msg).written) :
    (AfilterResult.ofWords p.2).mac = some (s.arpPacket msg).mac := by
  unfold processArpPacket at hp
  by_cases hgood : (s.arpPacket msg).Good
  · simp only [if_pos hgood] at hp
    obtain ⟨w, hw, hmac⟩ := mem_writeNextHops hp
    obtain ⟨hhi, hlow⟩ := mem_writes_processArpPacket hw
    rw [hmac, hhi, hlow, BitVec.ofNat_toNat, BitVec.ofNat_toNat, BitVec.setWidth_eq, BitVec.setWidth_eq]
    rfl
  · simp only [if_neg hgood] at hp
    cases hp

theorem sent_processRequest (r : RequestNode PlcToXscaleData) :
    (processRequest view conf r).2.1 = if r.state = .outstanding then (sendWaiting view r).2.1 else [] := by
  unfold processRequest
  by_cases hout : r.state = .outstanding
  · rw [if_pos hout, if_pos hout]
    rcases sendWaiting view r with ⟨result, sent, r'⟩
    cases result <;> cases conf <;> rfl
  · rw [if_neg hout, if_neg hout]
    cases conf <;> rfl

/-- The packets that are released are those that the request table sends. -/
theorem map_fst_released_eq_sent (hgood : (s.arpPacket msg).Good) :
    (processArpPacket s results requests conf msg).released.map Prod.fst =
      (Npr.processArpPacket view (s.arpPacket msg).srcProtoAddr.toNat (s.arpPacket msg).srcHwAddrHi16.toNat
        (s.arpPacket msg).srcHwAddrLow32.toNat conf requests).sent := by
  rw [map_fst_released, releasedFor, if_pos hgood, waitingFor, Npr.processArpPacket]
  cases hfind : findRequest (s.arpPacket msg).srcProtoAddr.toNat requests with
  | none => cases conf <;> rfl
  | some req =>
    let req' : RequestNode PlcToXscaleData := { req with
      macaddrHi16 := (s.arpPacket msg).srcHwAddrHi16.toNat
      macaddrLow32 := (s.arpPacket msg).srcHwAddrLow32.toNat }
    show (if req.state = .outstanding then req.msgs else []).takeWhile (Sendable ·) = (processRequest view conf req').2.1
    rw [sent_processRequest]
    by_cases hout : req.state = .outstanding
    · have hsent := (@releaseAll_sendWaiting s 0 0 req').2
      rw [map_fst_releaseAll] at hsent
      rw [if_pos hout, if_pos (show req'.state = .outstanding from hout)]
      exact hsent
    · rw [if_neg hout, if_neg (show ¬req'.state = .outstanding from hout)]
      rfl

theorem high32_of_carriesMac (h : CarriesMac (s.arpPacket msg).mac (processArpPacket s results requests conf msg)) :
    ∀ m ∈ releasedFor s requests msg, ToPlugin m → high32 (s.arpPacket msg).mac = 0 := by
  intro m hm
  rw [← @map_fst_released s msg requests results conf, List.mem_map] at hm
  obtain ⟨p, hp, rfl⟩ := hm
  obtain ⟨u, hsend⟩ := mem_released hp
  exact (headerMac_sendPacketToDataPath hsend).1 (h.released p hp)

/-- Everything has the address that was learned, unless a packet goes to a plugin and the high 32 bits of the address are
not all zero. -/
theorem carriesMac_iff (s : DataPath) (results : Word → Word) (requests : List (RequestNode PlcToXscaleData))
    (conf : Except String Unit) (msg : PlcToXscaleData) :
    CarriesMac (s.arpPacket msg).mac (processArpPacket s results requests conf msg) ↔
      ∀ m ∈ releasedFor s requests msg, ToPlugin m → high32 (s.arpPacket msg).mac = 0 := by
  constructor
  · intro h
    exact high32_of_carriesMac h
  · intro hplugin
    refine ⟨?_, fun p hp => mac_written hp⟩
    intro p hp
    obtain ⟨u, hsend⟩ := mem_released hp
    apply (headerMac_sendPacketToDataPath hsend).2
    apply hplugin
    rw [← @map_fst_released s msg requests results conf]
    exact List.mem_map_of_mem hp

/-- A reply of 10.0.0.2, whose address is 02:00:00:00:00:01. -/
def arpReply : DataPath where
  dram := store (fun _ => 0) (0 - 14) [2, 0, 0, 0, 0, 9, 2, 0, 0, 0, 0, 1, 8, 6, 0, 1, 8, 0, 6, 4, 0, 2,
    2, 0, 0, 0, 0, 1, 10, 0, 0, 2, 2, 0, 0, 0, 0, 9, 10, 0, 0, 1]
  sram _ := 0
  free := []

/-- The request for it, with a packet for plugin 0. -/
def arpWaiting : RequestNode PlcToXscaleData where
  ipaddr := 0x0a000002
  macaddrHi16 := 0
  macaddrLow32 := 0
  state := .outstanding
  validArpDbEntry := false
  dipMsg := some { bufHandle := 0, ucMcBits := 0x40 }
  nhrList := []

theorem arpReply_released_eq_sent :
    (processArpPacket arpReply (fun _ => 0) [arpWaiting] (.ok ()) { bufHandle := 0 }).released.map Prod.fst =
      (Npr.processArpPacket view (arpReply.arpPacket { bufHandle := 0 }).srcProtoAddr.toNat
        (arpReply.arpPacket { bufHandle := 0 }).srcHwAddrHi16.toNat
        (arpReply.arpPacket { bufHandle := 0 }).srcHwAddrLow32.toNat (.ok ()) [arpWaiting]).sent :=
  map_fst_released_eq_sent (by decide +kernel)

theorem arpReply_not_carriesMac : ¬∀ (s : DataPath) (results : Word → Word)
    (requests : List (RequestNode PlcToXscaleData)) (conf : Except String Unit) (msg : PlcToXscaleData),
    CarriesMac (s.arpPacket msg).mac (processArpPacket s results requests conf msg) := by
  intro h
  have hreleased : releasedFor arpReply [arpWaiting] { bufHandle := 0 } = [{ bufHandle := 0, ucMcBits := 0x40 }] := by
    decide +kernel
  have hzero := high32_of_carriesMac (h arpReply (fun _ => 0) [arpWaiting] (.ok ()) { bufHandle := 0 })
    { bufHandle := 0, ucMcBits := 0x40 } (hreleased ▸ List.mem_singleton_self _) (by decide)
  revert hzero
  decide +kernel

end DataPath

end OnlDaemons.Npr
