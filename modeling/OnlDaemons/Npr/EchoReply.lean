import OnlDaemons.Npr.LocalDelivery

/-!
# The reply to an echo request

The reply is the request with the addresses exchanged, another type and new checksums. The time to live is set to 64. The
sum of the payload is kept in a field of 16 bits: what is added behind the last whole word has no carry left.

## Main definitions

- `EchoReply` — the headers of the reply
- `IcmpCksmRight` — the checksum is that of the ICMP message
- `Untouched` — the other bytes
- `TailFits` — nothing is carried behind the last whole word

## Main result

- `handleLocalDelivery_reply`
-/

namespace OnlDaemons.Npr
open OnlDaemons.Lib ByteMemory OnesComplement

namespace DataPath

/-! ### What should hold -/

/-- The bytes of the ICMP message with a zero for its checksum. -/
def zeroCksm (bs : List Byte) : List Byte := (bs.set 2 0).set 3 0

def icmpBytes (s : DataPath) (msg : PlcToXscaleData) : List Byte :=
  load s.dram (s.dramAddr msg + 20) ((s.pktHdr msg).ipLen.toNat - 20)

structure EchoReply (s u : DataPath) (msg : PlcToXscaleData) : Prop where
  source : (u.pktHdr msg).ipSrcAddr = (s.pktHdr msg).ipDestAddr
  dest : (u.pktHdr msg).ipDestAddr = (s.pktHdr msg).ipSrcAddr
  type : (u.pktIcmpHdr msg).icmpType = 0
  header : SumsUp (load u.dram (s.dramAddr msg) 20)

def IcmpCksmRight (u : DataPath) (msg : PlcToXscaleData) : Prop :=
  (u.pktIcmpHdr msg).icmpCksm.toNat = 65535 - onesSum (zeroCksm (u.icmpBytes msg))

/-- Nothing has changed but the bytes at these places of the packet. -/
def Untouched (s u : DataPath) (msg : PlcToXscaleData) (places : List ℕ) : Prop :=
  ∀ x : Word, (x - s.dramAddr msg).toNat ∉ places → u.dram x = s.dram x

/-- The checksum of the header, the addresses, the type and the checksum of the message. -/
def replyPlaces : List ℕ := [10, 11] ++ List.range' 12 8 ++ [20, 22, 23]

/-- The ICMP message of the reply with a zero for its checksum. -/
def echoBytes (s : DataPath) (msg : PlcToXscaleData) : List Byte := zeroCksm ((s.icmpBytes msg).set 0 0)

/-- The sum of the whole words and what is behind them together have no carry. -/
def TailFits (bs : List Byte) : Prop :=
  onesSum (bs.take (bs.length / 4 * 4)) + (halfWords (bs.drop (bs.length / 4 * 4))).sum ≤ 65535

end DataPath

/-! ### Sums -/

theorem byteAt_type (a b : BitVec 8) (c : BitVec 16) : byteAt (a ++ b ++ c) 0 = a := by
  ext i hi
  rw [byteAt, BitVec.getElem_extractLsb', BitVec.getLsbD_append]
  simp
  grind

theorem byteAt_code (a b : BitVec 8) (c : BitVec 16) : byteAt (a ++ b ++ c) 1 = b := by
  ext i hi
  rw [byteAt, BitVec.getElem_extractLsb', BitVec.getLsbD_append]
  simp
  grind

theorem lowHalf_fields (a b : BitVec 8) (c : BitVec 16) : lowHalf (a ++ b ++ c) = c.toNat := by
  have hlow : (a ++ b ++ c : Word).extractLsb' 0 16 = c := by
    ext i hi
    rw [BitVec.getElem_extractLsb', BitVec.getLsbD_append]
    simp
    grind
  have hmask : (0xffff : Word).toNat = 2 ^ 16 - 1 := rfl
  have hnat := congrArg BitVec.toNat hlow
  rwa [BitVec.extractLsb'_toNat, Nat.shiftRight_zero, ← Nat.and_two_pow_sub_one_eq_mod, ← hmask, ← BitVec.toNat_and] at hnat

/-- A field of 16 bits counts as it is. -/
theorem halves_fields (a b : BitVec 8) (c : BitVec 16) : halves (a ++ b ++ c) = a.toNat * 256 + b.toNat + c.toNat := by
  rw [halves, highHalf_eq, byteAt_type, byteAt_code, lowHalf_fields]

theorem toNat_complement (c : BitVec 16) : ((0xffff - c.setWidth 32 : Word).setWidth 16).toNat = 65535 - c.toNat := by
  have hfull : (0xffff : Word).toNat = 65535 := rfl
  have hlt := c.isLt
  rw [BitVec.toNat_setWidth, BitVec.toNat_sub, BitVec.toNat_setWidth, hfull]
  omega

namespace EchoSum

variable {dram : Dram} {l : EchoSum}

theorem next_icmpCksm (l : EchoSum) :
    (l.next dram).icmpCksm.toNat = wrap (l.icmpCksm.toNat + halves (wordAt dram l.dramAddr)) := by
  have hlt := l.icmpCksm.isLt
  have hwide : (l.icmpCksm.setWidth 32).toNat = l.icmpCksm.toNat := by
    rw [BitVec.toNat_setWidth, Nat.mod_eq_of_lt (by omega)]
  have hsum := @computePartialCksm_eq (l.icmpCksm.setWidth 32) (by omega) (readIn dram l.dramAddr 1)
  have hle := wrap_le (l.icmpCksm.toNat + halves (wordAt dram l.dramAddr))
  rw [readIn_eq, readWords, readWords, List.map_singleton, List.sum_singleton, hwide] at hsum
  rw [next, readIn_eq, readWords, readWords, BitVec.toNat_setWidth, hsum, Nat.mod_eq_of_lt (by omega)]

theorem after_icmpCksm (m : ℕ) (l : EchoSum) :
    (l.after dram m).icmpCksm.toNat = wrap (l.icmpCksm.toNat + ((readWords dram l.dramAddr m).map halves).sum) := by
  induction m generalizing l with
  | zero =>
    have hlt := l.icmpCksm.isLt
    exact (wrap_of_le (by omega)).symm
  | succ m ih =>
    have hfirst : l.after dram (m + 1) = (l.next dram).after dram m := Function.iterate_succ_apply ..
    rw [hfirst, ih, next_icmpCksm, wrap_wrap_add, Nat.add_assoc, readWords, List.map_cons, List.sum_cons]
    rfl

theorem toNat_addToField {c : BitVec 16} {x : Word} (h : c.toNat + x.toNat ≤ 65535) :
    (addToField c x).toNat = c.toNat + x.toNat := by
  have hmask : (0xffff : Word).toNat = 2 ^ 16 - 1 := rfl
  have hlt := c.isLt
  simp only [addToField, BitVec.toNat_setWidth, BitVec.toNat_add, BitVec.toNat_and, BitVec.toNat_ushiftRight, hmask,
    Nat.and_two_pow_sub_one_eq_mod, Nat.shiftRight_eq_div_pow]
  omega

theorem toNat_and_ff00 (v : Word) : (v &&& (0xff00 : Word)).toNat = (byteAt v 2).toNat * 256 := by
  have hmask : ∀ i < 32, (0xff00 : Word).getLsbD i = (decide (8 ≤ i) && decide (i < 16)) := by decide
  have hbyte : v &&& (0xff00 : Word) = (byteAt v 2).setWidth 32 <<< 8 := by
    apply BitVec.eq_of_getLsbD_eq
    intro i hi
    rw [BitVec.getLsbD_and, hmask i hi]
    simp [byteAt]
    grind
  have hlt := (byteAt v 2).isLt
  rw [hbyte, BitVec.toNat_shiftLeft, BitVec.toNat_setWidth, Nat.mod_eq_of_lt (a := (byteAt v 2).toNat) (by omega),
    Nat.shiftLeft_eq, Nat.mod_eq_of_lt (by omega)]

theorem toNat_shift_and_ff00 (v : Word) : ((v >>> 16) &&& (0xff00 : Word)).toNat = (byteAt v 0).toNat * 256 := by
  have hbyte : byteAt (v >>> 16) 2 = byteAt v 0 := by
    ext i hi
    simp [byteAt]
    grind
  rw [toNat_and_ff00, hbyte]

/-- What is behind the last whole word counts as bytes with a zero behind them. -/
theorem rest_icmpCksm {ipLen : Word} {r : ℕ} (hr : r < 4) (hj : l.j + BitVec.ofNat 32 r = ipLen)
    (hfits : l.icmpCksm.toNat + (halfWords (load dram l.dramAddr r)).sum ≤ 65535) :
    (l.rest dram ipLen).icmpCksm.toNat = l.icmpCksm.toNat + (halfWords (load dram l.dramAddr r)).sum := by
  have hval : (readIn dram l.dramAddr 1).headD 0 = wordAt dram l.dramAddr := by
    rw [readIn_eq]
    rfl
  have hbytes := wordBytes_wordAt dram l.dramAddr
  generalize hv : wordAt dram l.dramAddr = v at hval hbytes
  simp only [wordBytes, load, List.cons.injEq, and_true] at hbytes
  obtain ⟨h0, h1, h2, -⟩ := hbytes
  obtain rfl | rfl | rfl | rfl : r = 0 ∨ r = 1 ∨ r = 2 ∨ r = 3 := by omega
  · have hend : l.j = ipLen := hj ▸ (BitVec.add_zero _).symm
    rw [rest, if_pos hend]
    rfl
  · have hne : l.j ≠ ipLen := by bv_omega
    have hone : l.j = ipLen - 1 := by bv_omega
    simp only [load, halfWords, ← h0, List.sum_singleton] at hfits ⊢
    rw [← toNat_shift_and_ff00] at hfits ⊢
    simp only [rest, if_neg hne, if_pos hone, hval]
    exact toNat_addToField hfits
  · have hne : l.j ≠ ipLen := by bv_omega
    have hone : l.j ≠ ipLen - 1 := by bv_omega
    have htwo : l.j = ipLen - 2 := by bv_omega
    simp only [load, halfWords, ← h0, ← h1, List.sum_singleton] at hfits ⊢
    rw [← highHalf_eq] at hfits ⊢
    simp only [rest, if_neg hne, if_neg hone, if_pos htwo, hval]
    exact toNat_addToField hfits
  · have hne : l.j ≠ ipLen := by bv_omega
    have hone : l.j ≠ ipLen - 1 := by bv_omega
    have htwo : l.j ≠ ipLen - 2 := by bv_omega
    simp only [load, halfWords, ← h0, ← h1, ← h2, List.sum_cons, List.sum_nil, Nat.add_zero] at hfits ⊢
    rw [← highHalf_eq, ← toNat_and_ff00, ← Nat.add_assoc, highHalf] at hfits ⊢
    simp only [rest, if_neg hne, if_neg hone, if_neg htwo, hval]
    rw [toNat_addToField, toNat_addToField]
    all_goals
      try rw [toNat_addToField]
      all_goals omega

end EchoSum

theorem wordBytes_fields (a b : BitVec 8) (c : BitVec 16) :
    wordBytes (a ++ b ++ c) = [a, b, byteAt (a ++ b ++ c) 2, byteAt (a ++ b ++ c) 3] := by
  rw [wordBytes, byteAt_type, byteAt_code]

theorem wordBytes_zero_field (a b : BitVec 8) : wordBytes (a ++ b ++ (0 : BitVec 16)) = [a, b, 0, 0] := by
  have hlow : ∀ j, 2 ≤ j → j < 4 → byteAt (a ++ b ++ (0 : BitVec 16)) j = 0 := by
    intro j hj hj'
    ext i hi
    rw [byteAt, BitVec.getElem_extractLsb', BitVec.getLsbD_append]
    simp
    omega
  rw [wordBytes_fields, hlow 2 (by omega) (by omega), hlow 3 (by omega) (by omega)]

/-- With its checksum a header sums up. -/
theorem sumsUp_hdr (h : Ipv4Hdr) (hzero : h.ipHdrCksm = 0) :
    SumsUp (({ h with ipHdrCksm := (computeCksm h.v).setWidth 16 } : Ipv4Hdr).v.flatMap wordBytes) := by
  have hsum := computeCksm_eq h.v
  have hfield : ((computeCksm h.v).setWidth 16).toNat = 65535 - wrap (h.v.map halves).sum := by
    rw [BitVec.toNat_setWidth, hsum, Nat.mod_eq_of_lt (by omega)]
  generalize (computeCksm h.v).setWidth 16 = cksm at hfield
  have hv : (({ h with ipHdrCksm := cksm } : Ipv4Hdr).v.map halves).sum = (h.v.map halves).sum + cksm.toNat := by
    have hnone : (0 : BitVec 16).toNat = 0 := rfl
    simp only [Ipv4Hdr.v, List.map_cons, List.map_nil, List.sum_cons, List.sum_nil, halves_fields, hzero]
    omega
  rw [SumsUp, onesSum_eq, ← List.append_nil (List.flatMap _ _), sum_halfWords_words, hv, hfield]
  exact wrap_complement _

namespace DataPath

variable {s : DataPath} {msg : PlcToXscaleData} {l : EchoSum}

theorem holds_hdr (s : DataPath) (msg : PlcToXscaleData) : HoldsWords s.dram (s.dramAddr msg) (s.pktHdr msg).v := by
  have hwords : (s.pktHdr msg).v = readWords s.dram (s.dramAddr msg) 5 := by
    rw [pktHdr, readIn_eq]
    exact Ipv4Hdr.v_ofWords ..
  rw [hwords]
  exact holdsWords_readWords ..

theorem holds_icmpHdr (s : DataPath) (msg : PlcToXscaleData) :
    HoldsWords s.dram (s.dramAddr msg + 20) (s.pktIcmpHdr msg).v := by
  have hwords : (s.pktIcmpHdr msg).v = readWords s.dram (s.dramAddr msg + 20) 2 := by
    rw [pktIcmpHdr, readIn_eq]
    exact IcmpHdr.v_ofWords ..
  rw [hwords]
  exact holdsWords_readWords ..

/-- The ICMP header of the reply. -/
def replyIcmpHdr (s : DataPath) (msg : PlcToXscaleData) (l : EchoSum) : IcmpHdr :=
  { replyIcmp (s.pktIcmpHdr msg) with icmpCksm := (0xffff - l.icmpCksm.setWidth 32 : Word).setWidth 16 }

/-- The words that are written. -/
def replyWords (s : DataPath) (msg : PlcToXscaleData) (l : EchoSum) : List Word :=
  (replyHdr (s.pktHdr msg)).v.drop 2 ++ (s.replyIcmpHdr msg l).v.take 1

theorem length_replyWords : (s.replyWords msg l).length = 4 := rfl

theorem sendReply_dram : (s.sendReply msg l).dram =
    store s.dram (s.dramAddr msg + BitVec.ofNat 32 8) ((s.replyWords msg l).flatMap wordBytes) := by
  have hfits : 4 * ((s.replyWords msg l).length + 1) ≤ 2 ^ 32 := by
    rw [length_replyWords]
    decide
  exact writeOut_eq _ _ (List.ne_nil_of_length_eq_add_one length_replyWords) hfits

/-- The headers of the reply in DRAM. -/
theorem holds_reply (s : DataPath) (msg : PlcToXscaleData) (l : EchoSum) :
    HoldsWords (s.sendReply msg l).dram (s.dramAddr msg)
      ((replyHdr (s.pktHdr msg)).v ++ (s.replyIcmpHdr msg l).v) := by
  have hlen : ((s.replyWords msg l).flatMap wordBytes).length = 16 := length_flatMap_wordBytes _
  have hhdr : HoldsWords s.dram (s.dramAddr msg) ((s.pktHdr msg).v.take 2 ++ (s.pktHdr msg).v.drop 2) := holds_hdr s msg
  have hicmp : HoldsWords s.dram (s.dramAddr msg + 20)
      ((s.pktIcmpHdr msg).v.take 1 ++ (s.pktIcmpHdr msg).v.drop 1) := holds_icmpHdr s msg
  have htwo : 4 * ((s.pktHdr msg).v.take 2).length = 8 := rfl
  have hfirst : HoldsWords (s.sendReply msg l).dram (s.dramAddr msg) ((s.pktHdr msg).v.take 2) := by
    have hbefore := @HoldsWords.store_before 32 _ _ ((s.replyWords msg l).flatMap wordBytes) _ (holdsWords_append.1 hhdr).1
    rw [htwo, hlen] at hbefore
    rw [sendReply_dram]
    exact hbefore (by omega)
  have hnew : HoldsWords (s.sendReply msg l).dram (s.dramAddr msg + BitVec.ofNat 32 8) (s.replyWords msg l) := by
    rw [sendReply_dram]
    apply holdsWords_store
    rw [length_replyWords]
    decide
  have hlast : HoldsWords (s.sendReply msg l).dram (s.dramAddr msg + BitVec.ofNat 32 8 + BitVec.ofNat 32 16)
      ((s.pktIcmpHdr msg).v.drop 1) := by
    rw [sendReply_dram]
    apply HoldsWords.store_behind
    · have hend := (holdsWords_append.1 hicmp).2
      have hone : 4 * ((s.pktIcmpHdr msg).v.take 1).length = 4 := rfl
      have hsum : (20 : Word) + BitVec.ofNat 32 4 = BitVec.ofNat 32 8 + BitVec.ofNat 32 16 := by decide
      rwa [hone, BitVec.add_assoc, hsum, ← BitVec.add_assoc] at hend
    · rw [hlen]
    · have hone : ((s.pktIcmpHdr msg).v.drop 1).length = 1 := rfl
      omega
  have hwords : (replyHdr (s.pktHdr msg)).v ++ (s.replyIcmpHdr msg l).v =
      (s.pktHdr msg).v.take 2 ++ (s.replyWords msg l ++ (s.pktIcmpHdr msg).v.drop 1) := by
    have hkept : (s.pktHdr msg).v.take 2 = (replyHdr (s.pktHdr msg)).v.take 2 := by
      simp only [Ipv4Hdr.v, replyHdr, List.take_succ_cons, List.take_zero]
    have hid : (s.pktIcmpHdr msg).v.drop 1 = (s.replyIcmpHdr msg l).v.drop 1 := by
      simp only [IcmpHdr.v, replyIcmpHdr, replyIcmp, List.drop_succ_cons, List.drop_zero]
    rw [hkept, hid, replyWords, List.append_assoc, List.take_append_drop, ← List.append_assoc, List.take_append_drop]
  have hfour : 4 * (s.replyWords msg l).length = 16 := rfl
  rw [hwords, holdsWords_append, holdsWords_append, htwo, hfour]
  exact ⟨hfirst, hnew, hlast⟩

theorem pktHdr_sendReply : (s.sendReply msg l).pktHdr msg = replyHdr (s.pktHdr msg) := by
  have hwords := (holdsWords_append.1 (holds_reply s msg l)).1.readWords_eq
  have haddr : (s.sendReply msg l).dramAddr msg = s.dramAddr msg := rfl
  have hread : readWords (s.sendReply msg l).dram (s.dramAddr msg) 5 = (replyHdr (s.pktHdr msg)).v := hwords
  rw [pktHdr, haddr, readIn_eq, hread, Ipv4Hdr.ofWords_v]

theorem pktIcmpHdr_sendReply : (s.sendReply msg l).pktIcmpHdr msg = s.replyIcmpHdr msg l := by
  have hwords := (holdsWords_append.1 (holds_reply s msg l)).2.readWords_eq
  have haddr : (s.sendReply msg l).dramAddr msg = s.dramAddr msg := rfl
  have hread : readWords (s.sendReply msg l).dram (s.dramAddr msg + 20) 2 = (s.replyIcmpHdr msg l).v := hwords
  rw [pktIcmpHdr, haddr, readIn_eq, hread, IcmpHdr.ofWords_v]

/-! ### The ICMP message -/

/-- The payload behind the headers. -/
def payload (s : DataPath) (msg : PlcToXscaleData) : List Byte :=
  load s.dram (s.dramAddr msg + 28) ((s.pktHdr msg).ipLen.toNat - 28)

theorem icmpBytes_eq (h28 : 28 ≤ (s.pktHdr msg).ipLen.toNat) :
    s.icmpBytes msg = (s.pktIcmpHdr msg).v.flatMap wordBytes ++ s.payload msg := by
  have hsplit : (s.pktHdr msg).ipLen.toNat - 20 = 8 + ((s.pktHdr msg).ipLen.toNat - 28) := by omega
  have hicmp := holds_icmpHdr s msg
  rw [icmpBytes, hsplit, load_add, ← hicmp, payload, BitVec.add_assoc]
  rfl

theorem payload_sendReply : (s.sendReply msg l).payload msg = s.payload msg := by
  have hlen : ((s.replyWords msg l).flatMap wordBytes).length = 16 := length_flatMap_wordBytes _
  have hlt := (s.pktHdr msg).ipLen.isLt
  have haddr : (s.sendReply msg l).dramAddr msg = s.dramAddr msg := rfl
  have hsame : (replyHdr (s.pktHdr msg)).ipLen = (s.pktHdr msg).ipLen := rfl
  have hat : s.dramAddr msg + 28 = s.dramAddr msg + BitVec.ofNat 32 8 + BitVec.ofNat 32 20 := by
    rw [BitVec.add_assoc]
    rfl
  rw [payload, payload, pktHdr_sendReply, hsame, haddr, hat, sendReply_dram]
  exact load_store_behind (by omega) (by omega)

theorem zeroCksm_fields (a b : BitVec 8) (c : BitVec 16) (v : Word) (bs : List Byte) :
    zeroCksm ([a ++ b ++ c, v].flatMap wordBytes ++ bs) = [a ++ b ++ (0 : BitVec 16), v].flatMap wordBytes ++ bs := by
  simp only [List.flatMap_cons, List.flatMap_nil, wordBytes_fields a b c, wordBytes_zero_field]
  rfl

theorem zeroCksm_sendReply (h28 : 28 ≤ (s.pktHdr msg).ipLen.toNat) :
    zeroCksm ((s.sendReply msg l).icmpBytes msg) =
      (replyIcmp (s.pktIcmpHdr msg)).v.flatMap wordBytes ++ s.payload msg := by
  have hsame : (replyHdr (s.pktHdr msg)).ipLen = (s.pktHdr msg).ipLen := rfl
  rw [icmpBytes_eq (by rwa [pktHdr_sendReply, hsame]), pktIcmpHdr_sendReply, payload_sendReply]
  exact zeroCksm_fields ..

theorem zeroCksm_set_fields (a b : BitVec 8) (c : BitVec 16) (v : Word) (bs : List Byte) :
    zeroCksm (([a ++ b ++ c, v].flatMap wordBytes ++ bs).set 0 0) =
      [(0 : BitVec 8) ++ b ++ (0 : BitVec 16), v].flatMap wordBytes ++ bs := by
  simp only [List.flatMap_cons, List.flatMap_nil, wordBytes_fields a b c, wordBytes_zero_field]
  rfl

theorem echoBytes_eq (h28 : 28 ≤ (s.pktHdr msg).ipLen.toNat) :
    s.echoBytes msg = (replyIcmp (s.pktIcmpHdr msg)).v.flatMap wordBytes ++ s.payload msg := by
  rw [echoBytes, icmpBytes_eq h28]
  exact zeroCksm_set_fields ..

/-- The words that are summed before the loop and in it. -/
def summedWords (s : DataPath) (msg : PlcToXscaleData) : List Word :=
  (replyIcmp (s.pktIcmpHdr msg)).v ++ readWords s.dram (s.dramAddr msg + 28) (payloadWords (s.pktHdr msg).ipLen)

/-- What is behind them. -/
def tailBytes (s : DataPath) (msg : PlcToXscaleData) : List Byte :=
  load s.dram (s.dramAddr msg + 28 + BitVec.ofNat 32 (4 * payloadWords (s.pktHdr msg).ipLen))
    (((s.pktHdr msg).ipLen.toNat - 28) % 4)

theorem echoBytes_split (h28 : 28 ≤ (s.pktHdr msg).ipLen.toNat) :
    s.echoBytes msg = (s.summedWords msg).flatMap wordBytes ++ s.tailBytes msg := by
  have hsplit : (s.pktHdr msg).ipLen.toNat - 28 =
      4 * payloadWords (s.pktHdr msg).ipLen + ((s.pktHdr msg).ipLen.toNat - 28) % 4 := by
    unfold payloadWords
    omega
  rw [echoBytes_eq h28, payload, hsplit, load_add, summedWords, List.flatMap_append, flatMap_readWords, List.append_assoc,
    tailBytes]

theorem length_tailBytes_lt : (s.tailBytes msg).length < 4 := by
  rw [tailBytes, length_load]
  omega

theorem tailFits_iff (h28 : 28 ≤ (s.pktHdr msg).ipLen.toNat) :
    TailFits (s.echoBytes msg) ↔
      wrap ((s.summedWords msg).map halves).sum + (halfWords (s.tailBytes msg)).sum ≤ 65535 := by
  have hlt := @length_tailBytes_lt s msg
  have hlen : ((s.summedWords msg).flatMap wordBytes).length = (s.echoBytes msg).length / 4 * 4 := by
    rw [echoBytes_split h28, List.length_append, length_flatMap_wordBytes]
    omega
  rw [TailFits, ← hlen, echoBytes_split h28, List.take_left, List.drop_left, onesSum_eq, ← List.append_nil (List.flatMap _ _),
    sum_halfWords_words]
  rfl

/-- The loop and what follows it find the sum of the message when nothing is carried at its end. -/
theorem echoSum_icmpCksm (h28 : 28 ≤ (s.pktHdr msg).ipLen.toNat) (hfits : TailFits (s.echoBytes msg)) :
    (((s.echoSum msg).after s.dram (payloadWords (s.pktHdr msg).ipLen)).rest s.dram
      ((s.pktHdr msg).ipLen.setWidth 32)).icmpCksm.toNat = onesSum (s.echoBytes msg) := by
  rw [tailFits_iff h28] at hfits
  have hlt := (s.pktHdr msg).ipLen.isLt
  have hbegin : (s.echoSum msg).icmpCksm.toNat = wrap ((replyIcmp (s.pktIcmpHdr msg)).v.map halves).sum := by
    have hsum := @computePartialCksm_eq 0 (by decide) (replyIcmp (s.pktIcmpHdr msg)).v
    have hle := wrap_le ((replyIcmp (s.pktIcmpHdr msg)).v.map halves).sum
    have hzero : (0 : Word).toNat = 0 := rfl
    rw [hzero, Nat.zero_add] at hsum
    rw [echoSum, BitVec.toNat_setWidth, hsum, Nat.mod_eq_of_lt (by omega)]
  have hloop : ((s.echoSum msg).after s.dram (payloadWords (s.pktHdr msg).ipLen)).icmpCksm.toNat =
      wrap ((s.summedWords msg).map halves).sum := by
    rw [EchoSum.after_icmpCksm, hbegin, wrap_wrap_add, summedWords, List.map_append, List.sum_append]
    rfl
  have htail : load s.dram ((s.echoSum msg).after s.dram (payloadWords (s.pktHdr msg).ipLen)).dramAddr
      (((s.pktHdr msg).ipLen.toNat - 28) % 4) = s.tailBytes msg := by
    rw [EchoSum.after_dramAddr]
    rfl
  have hpos : ((s.echoSum msg).after s.dram (payloadWords (s.pktHdr msg).ipLen)).j +
      BitVec.ofNat 32 (((s.pktHdr msg).ipLen.toNat - 28) % 4) = (s.pktHdr msg).ipLen.setWidth 32 := by
    apply BitVec.eq_of_toNat_eq
    have hj : (s.echoSum msg).j.toNat = 28 := rfl
    rw [EchoSum.after_j, BitVec.toNat_add, BitVec.toNat_add, toNat_ipLen, BitVec.toNat_ofNat, BitVec.toNat_ofNat, hj]
    unfold payloadWords
    omega
  rw [EchoSum.rest_icmpCksm (by omega) hpos (by rwa [htail, hloop]), htail, hloop, echoBytes_split h28, onesSum_eq,
    sum_halfWords_words, ← wrap_wrap_add, wrap_of_le hfits]

/-! ### The reply -/

theorem echoReply_sendReply (s : DataPath) (msg : PlcToXscaleData) (l : EchoSum) :
    EchoReply s (s.sendReply msg l) msg where
  source := by
    rw [pktHdr_sendReply]
    rfl
  dest := by
    rw [pktHdr_sendReply]
    rfl
  type := by
    rw [pktIcmpHdr_sendReply]
    rfl
  header := by
    have hhdr := (holdsWords_append.1 (holds_reply s msg l)).1
    have hload : load (s.sendReply msg l).dram (s.dramAddr msg) 20 = (replyHdr (s.pktHdr msg)).v.flatMap wordBytes := hhdr
    rw [hload]
    exact sumsUp_hdr _ rfl

theorem icmpCksmRight_sendReply (h28 : 28 ≤ (s.pktHdr msg).ipLen.toNat)
    (hsum : l.icmpCksm.toNat = onesSum (s.echoBytes msg)) : (s.sendReply msg l).IcmpCksmRight msg := by
  rw [IcmpCksmRight, pktIcmpHdr_sendReply, zeroCksm_sendReply h28, ← echoBytes_eq h28, ← hsum]
  exact toNat_complement _

theorem proto_byte {dram : Dram} {a : Word} {h : Ipv4Hdr} (hd : HoldsWords dram a h.v) :
    dram (a + BitVec.ofNat 32 9) = h.ipProto := by
  have hget := congrArg (fun bs : List Byte => bs[9]?) hd
  rw [getElem?_load dram a (show 9 < 4 * h.v.length by simp [Ipv4Hdr.v])] at hget
  have hbyte : (h.v.flatMap wordBytes)[9]? = some h.ipProto := congrArg some (byteAt_code h.ipTtl h.ipProto h.ipHdrCksm)
  exact Option.some.inj (hget.trans hbyte)

theorem ttl_byte {dram : Dram} {a : Word} {h : Ipv4Hdr} (hd : HoldsWords dram a h.v) :
    dram (a + BitVec.ofNat 32 8) = h.ipTtl := by
  have hget := congrArg (fun bs : List Byte => bs[8]?) hd
  rw [getElem?_load dram a (show 8 < 4 * h.v.length by simp [Ipv4Hdr.v])] at hget
  have hbyte : (h.v.flatMap wordBytes)[8]? = some h.ipTtl := congrArg some (byteAt_type h.ipTtl h.ipProto h.ipHdrCksm)
  exact Option.some.inj (hget.trans hbyte)

theorem code_byte {dram : Dram} {a : Word} {h : IcmpHdr} (hd : HoldsWords dram a h.v) :
    dram (a + BitVec.ofNat 32 1) = h.icmpCode := by
  have hget := congrArg (fun bs : List Byte => bs[1]?) hd
  rw [getElem?_load dram a (show 1 < 4 * h.v.length by simp [IcmpHdr.v])] at hget
  have hbyte : (h.v.flatMap wordBytes)[1]? = some h.icmpCode := congrArg some (byteAt_code h.icmpType h.icmpCode h.icmpCksm)
  exact Option.some.inj (hget.trans hbyte)

theorem untouched_sendReply : Untouched s (s.sendReply msg l) msg (8 :: replyPlaces) := by
  intro x hx
  have hreply := holdsWords_append.1 (holds_reply s msg l)
  have hlen : ((s.replyWords msg l).flatMap wordBytes).length = 16 := length_flatMap_wordBytes _
  have hat := add_ofNat_toNat_sub (s.dramAddr msg) x
  have hlt := (x - s.dramAddr msg).isLt
  by_cases hin : 8 ≤ (x - s.dramAddr msg).toNat ∧ (x - s.dramAddr msg).toNat < 24
  · -- the protocol and the code are written as they were
    have hplace : (x - s.dramAddr msg).toNat = 9 ∨ (x - s.dramAddr msg).toNat = 21 := by
      generalize (x - s.dramAddr msg).toNat = k at hx hin
      simp [replyPlaces, List.range'] at hx
      omega
    rcases hplace with h9 | h21
    · rw [h9] at hat
      rw [← hat, proto_byte hreply.1, proto_byte (holds_hdr s msg)]
      rfl
    · rw [h21] at hat
      have hsum : BitVec.ofNat 32 21 = 20 + BitVec.ofNat 32 1 := by decide
      have htwenty : BitVec.ofNat 32 (4 * (replyHdr (s.pktHdr msg)).v.length) = 20 := rfl
      have hicmp := hreply.2
      rw [htwenty] at hicmp
      rw [← hat, hsum, ← BitVec.add_assoc, code_byte hicmp, code_byte (holds_icmpHdr s msg)]
      rfl
  · rw [sendReply_dram]
    apply store_of_le
    have hoff : x - (s.dramAddr msg + BitVec.ofNat 32 8) = x - s.dramAddr msg - BitVec.ofNat 32 8 :=
      (BitVec.sub_sub ..).symm
    rw [hlen, hoff, BitVec.toNat_sub, BitVec.toNat_ofNat]
    omega

/-- The sum at the end. -/
def echoTotal (s : DataPath) (msg : PlcToXscaleData) : EchoSum :=
  ((s.echoSum msg).after s.dram (payloadWords (s.pktHdr msg).ipLen)).rest s.dram ((s.pktHdr msg).ipLen.setWidth 32)

theorem handleLocalDelivery_eq (hecho : s.IsEchoRequest msg) (h28 : 28 ≤ (s.pktHdr msg).ipLen.toNat) :
    s.handleLocalDelivery msg (payloadWords (s.pktHdr msg).ipLen + 1) =
      some (s.sendReply msg (s.echoTotal msg), (s.echoTotal msg).reads) := by
  rw [handleLocalDelivery_of_isEchoRequest hecho, run_echoSum h28]
  rfl

/-- An echo request with a header of 20 bytes and room for the headers is answered. The reply has the addresses exchanged,
the type of a reply, a time to live of 64 and a header that sums up. Its ICMP checksum is that of the message when nothing
is carried behind the last whole word, and no other byte has changed. -/
theorem handleLocalDelivery_reply (s : DataPath) (msg : PlcToXscaleData) (hecho : s.IsEchoRequest msg)
    (h20 : (s.pktHdr msg).ipHdrLen = 5) (h28 : 28 ≤ (s.pktHdr msg).ipLen.toNat) :
    (∃ fuel u reads, s.handleLocalDelivery msg fuel = some (u, reads) ∧
      EchoReply s u msg ∧ (u.pktHdr msg).ipHdrLen = 5 ∧ (u.pktHdr msg).ipTtl = 64 ∧
      (TailFits (s.echoBytes msg) → u.IcmpCksmRight msg) ∧ Untouched s u msg (8 :: replyPlaces)) ∧
    ∀ (cksm : Word) (data : List Word), cksm.toNat ≤ 65535 → (computePartialCksm cksm data).toNat ≤ 65535 := by
  refine ⟨⟨_, _, _, handleLocalDelivery_eq hecho h28, echoReply_sendReply .., ?_, ?_, ?_, untouched_sendReply⟩, ?_⟩
  · rw [pktHdr_sendReply]
    exact h20
  · rw [pktHdr_sendReply]
    rfl
  · intro hfits
    exact icmpCksmRight_sendReply h28 (echoSum_icmpCksm h28 hfits)
  · intro cksm data hc
    exact computePartialCksm_le hc data

/-- An echo request with five bytes behind its headers. -/
def echo : DataPath :=
  withPacket [0x45, 0, 0, 33, 0, 0, 0, 0, 7, 1, 0, 0, 10, 0, 0, 1, 10, 0, 0, 2, 8, 0, 0, 0, 0, 1, 0, 1, 1, 2, 3, 4, 5]

theorem echo_reply :
    (∃ fuel u reads, echo.handleLocalDelivery { bufHandle := 0 } fuel = some (u, reads) ∧
      EchoReply echo u { bufHandle := 0 } ∧ (u.pktHdr { bufHandle := 0 }).ipHdrLen = 5 ∧
      (u.pktHdr { bufHandle := 0 }).ipTtl = 64 ∧
      (TailFits (echo.echoBytes { bufHandle := 0 }) → u.IcmpCksmRight { bufHandle := 0 }) ∧
      Untouched echo u { bufHandle := 0 } (8 :: replyPlaces)) ∧
    ∀ (cksm : Word) (data : List Word), cksm.toNat ≤ 65535 → (computePartialCksm cksm data).toNat ≤ 65535 :=
  handleLocalDelivery_reply echo { bufHandle := 0 } (by decide +kernel) (by decide +kernel) (by decide +kernel)

/-- The reply as it would be with its time to live kept. -/
theorem echo_touched : ¬∀ (s : DataPath) (msg : PlcToXscaleData), s.IsEchoRequest msg → (s.pktHdr msg).ipHdrLen = 5 →
    28 ≤ (s.pktHdr msg).ipLen.toNat → (∃ fuel u reads, s.handleLocalDelivery msg fuel = some (u, reads) ∧
      EchoReply s u msg ∧ u.IcmpCksmRight msg ∧ Untouched s u msg replyPlaces) ∧
    ∀ (cksm : Word) (data : List Word), cksm.toNat ≤ 65535 → (computePartialCksm cksm data).toNat ≤ 65535 := by
  intro h
  obtain ⟨⟨fuel, u, reads, hrun, -, -, huntouched⟩, -⟩ :=
    h echo { bufHandle := 0 } (by decide +kernel) (by decide +kernel) (by decide +kernel)
  rw [handleLocalDelivery_of_isEchoRequest (by decide +kernel), Option.map_eq_some_iff] at hrun
  obtain ⟨l, -, hl⟩ := hrun
  cases hl
  have hsame := huntouched (echo.dramAddr { bufHandle := 0 } + BitVec.ofNat 32 8) (by decide +kernel)
  have hold : echo.dram (echo.dramAddr { bufHandle := 0 } + BitVec.ofNat 32 8) = 7 := by decide +kernel
  rw [ttl_byte (holdsWords_append.1 (holds_reply echo { bufHandle := 0 } l)).1, hold] at hsame
  revert hsame
  decide +kernel

end DataPath

end OnlDaemons.Npr
