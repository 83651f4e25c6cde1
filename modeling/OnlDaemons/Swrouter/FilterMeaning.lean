import Mathlib.Tactic.Common
import OnlDaemons.Swrouter.FilterCommand

/-!
# What the iptables commands of a filter select

A command is a list of words, and each field of the filter is read back from the words of its piece. The lists of the TCP
flags come out as they should when FIN is to be set and the other flags are in order.

## Main definitions

- `argWords` — the words of the part that the commands have in common
- `Reads` — words take the reader from one rule to another
- `meaning` — the match of a filter

## Main results

- `foldl_addFlag` — the two lists of flags
- `reads_argWords`, `readRule_command` — a command is read as the match of its filter
- `filterCommand_selects` — both daemons select the packets that have what they look at
-/

namespace OnlDaemons.Swrouter
open OnlDaemons.Lib Iptables

/-! ### Numbers and addresses -/

theorem isDigit_of_mem_showNat {n : ℕ} {c : Char} (h : c ∈ showNat n) : c.isDigit :=
  Nat.isDigit_of_mem_toDigits (by decide) (by decide) h

theorem readNat_showNat (n : ℕ) : readNat (showNat n) = some n := by
  have hne : showNat n ≠ [] := Nat.toDigits_ne_nil
  have hdigits : (showNat n).all Char.isDigit := List.all_eq_true.2 fun c hc => isDigit_of_mem_showNat hc
  rw [readNat, if_pos ⟨hne, hdigits⟩]
  exact congrArg some Nat.ofDigitChars_ten_toDigits

theorem not_mem_showNat {n : ℕ} {c : Char} (h : ¬c.isDigit) : c ∉ showNat n := fun hc => h (isDigit_of_mem_showNat hc)

theorem readNat_int2str {i : ℤ} (h : 0 ≤ i) (hi : i < 2 ^ 32) : readNat (int2str i) = some i.toNat := by
  rw [int2str, readNat_showNat, Int.emod_eq_of_lt h hi]

theorem int2str_ne_nil (i : ℤ) : int2str i ≠ [] := Nat.toDigits_ne_nil

theorem isDigit_of_readNat {w : Text} (h : (readNat w).isSome) {c : Char} (hc : c ∈ w) : c.isDigit := by
  unfold readNat at h
  split at h
  · rename_i hw
    exact List.all_eq_true.1 hw.2 c hc
  · cases h

theorem isSome_of_mapM {α β : Type} {g : α → Option β} {l : List α} (h : (l.mapM g).isSome) : ∀ x ∈ l, (g x).isSome := by
  induction l with
  | nil => simp
  | cons x l ih =>
    rw [List.mapM_cons] at h
    cases hx : g x with
    | none => simp [hx] at h
    | some y =>
      cases hl : l.mapM g with
      | none => simp [hx, hl] at h
      | some ys =>
        intro z hz
        cases hz with
        | head => simp [hx]
        | tail _ hzl => exact ih (by simp [hl]) z hzl

/-- An address has digits and dots only. -/
theorem isDigit_of_readAddr {w : Text} (h : (readAddr w).isSome) {c : Char} (hc : c ∈ w) : c = '.' ∨ c.isDigit := by
  have hall : ((w.splitOn '.').mapM readNat).isSome := by
    cases hm : (w.splitOn '.').mapM readNat with
    | none => simp [readAddr, hm] at h
    | some l => rfl
  obtain hdot | ⟨v, hv, hcv⟩ := @mem_splitOn _ _ '.' _ _ hc
  · exact .inl hdot
  · exact .inr (isDigit_of_readNat (isSome_of_mapM hall v hv) hcv)

theorem not_mem_addr {w : Text} (h : (readAddr w).isSome) {c : Char} (hdot : c ≠ '.') (hdigit : ¬c.isDigit) : c ∉ w := by
  intro hc
  obtain hd | hd := isDigit_of_readAddr h hc
  · exact hdot hd
  · exact hdigit hd

theorem readPrefix_eq {w : Text} {a : BitVec 32} {len : ℤ} (h : readAddr w = some a) (h0 : 0 ≤ len) (h32 : len ≤ 32) :
    readPrefix (w ++ "/".toList ++ int2str len) = some (a, len.toNat) := by
  have hw : '/' ∉ w := not_mem_addr (by rw [h]; rfl) (by decide) (by decide)
  have hlen : '/' ∉ int2str len := not_mem_showNat (by decide)
  have hsplit : (w ++ "/".toList ++ int2str len).splitOn '/' = [w, int2str len] := by
    have hcons : w ++ "/".toList ++ int2str len = w ++ '/' :: int2str len := by simp
    rw [hcons, List.splitOn_append_cons_self_of_not_mem hw, List.splitOn_eq_singleton hlen]
  have hle : len.toNat ≤ 32 := by omega
  rw [readPrefix, hsplit]
  simp [h, readNat_int2str h0 (by omega), hle]

theorem readPort_eq {protocol : Option ℕ} {port : ℤ} (h : ∃ n ∈ protocol, n ∈ portProtocols) (h0 : 0 < port)
    (h16 : port < 65536) : readPort protocol (int2str port) = some port.toNat := by
  have hlt : port.toNat < 65536 := by omega
  rw [readPort, if_pos h, readNat_int2str (by omega) (by omega)]
  simp [hlt]

/-! ### The lists of flags -/

def flagName : TcpFlag → String
  | .fin => "FIN"
  | .syn => "SYN"
  | .rst => "RST"
  | .psh => "PSH"
  | .ack => "ACK"
  | .urg => "URG"

theorem tcpFlags_eq (f : FilterInfo) : tcpFlags f =
    let l := FilterInfo.laterFlags.foldl (fun l t => addFlag (flagName t) (f.tcp t) l)
      (addFin f.tcpFin { shcmd := " --tcp-flags ".toList })
    l.shcmd ++ l.onFlags := rfl

/-- A list of flags in the order of the commands, with a comma before each. -/
def listed (ts : List TcpFlag) : Text := spaced ',' (ts.map fun t => (flagName t).toList)

/-- Once a flag is set the others are put on both lists, which is right if they are to be set as well. -/
theorem foldl_addFlag {value : TcpFlag → ℤ} {ts : List TcpFlag} (hts : ts.Pairwise fun t u => 0 < value t → value u ≠ 0)
    {l : FlagLists} (hl : l.listStarted = true) (hon : l.on = true → ∀ t ∈ ts, value t ≠ 0) :
    let l' := ts.foldl (fun l t => addFlag (flagName t) (value t) l) l
    l'.shcmd = l.shcmd ++ listed (ts.filter fun t => 0 ≤ value t) ∧
      l'.onFlags = l.onFlags ++ listed (ts.filter fun t => 0 < value t) := by
  induction ts generalizing l with
  | nil => simp [listed, spaced]
  | cons t ts ih =>
    obtain ⟨hfirst, htail⟩ := List.pairwise_cons.1 hts
    rw [List.foldl_cons]
    by_cases hneg : value t < 0
    · have hsame : addFlag (flagName t) (value t) l = l := by
        rw [addFlag, if_neg (by omega)]
      have hle : ¬0 ≤ value t := by omega
      have hlt : ¬0 < value t := by omega
      rw [hsame, List.filter_cons_of_neg (by simpa using hle), List.filter_cons_of_neg (by simpa using hlt)]
      exact ih htail hl fun h u hu => hon h u (List.mem_cons_of_mem _ hu)
    · have hle : 0 ≤ value t := by omega
      rw [List.filter_cons_of_pos (by simpa using hle)]
      by_cases hpos : 0 < value t
      · have hstep : addFlag (flagName t) (value t) l =
            { shcmd := l.shcmd ++ ",".toList ++ (flagName t).toList
              listStarted := true
              onFlags := l.onFlags ++ ",".toList ++ (flagName t).toList
              on := true } := by
          simp [addFlag, hle, hl, hpos]
        rw [hstep, List.filter_cons_of_pos (by simpa using hpos)]
        obtain ⟨hcmd, hflags⟩ := ih htail (l := ⟨l.shcmd ++ ",".toList ++ (flagName t).toList, true,
          l.onFlags ++ ",".toList ++ (flagName t).toList, true⟩) rfl fun _ u hu => hfirst u hu hpos
        exact ⟨by rw [hcmd]; simp [listed, spaced], by rw [hflags]; simp [listed, spaced]⟩
      · have hoff : l.on = false := by
          have hzero : ¬value t ≠ 0 := by omega
          exact Bool.eq_false_iff.2 fun h => hzero (hon h t List.mem_cons_self)
        have hstep : addFlag (flagName t) (value t) l =
            { l with shcmd := l.shcmd ++ ",".toList ++ (flagName t).toList } := by
          simp [addFlag, hle, hl, hpos, hoff]
        rw [hstep, List.filter_cons_of_neg (by simpa using hpos)]
        obtain ⟨hcmd, hflags⟩ := ih htail (l := { l with shcmd := l.shcmd ++ ",".toList ++ (flagName t).toList }) hl
          fun h => absurd h (by simp [hoff])
        exact ⟨by rw [hcmd]; simp [listed, spaced], hflags⟩

/-- The flags that are looked at, and those that are to be set, once FIN is to be set. -/
def examinedFlags (f : FilterInfo) : List TcpFlag := FilterInfo.laterFlags.filter fun t => 0 ≤ f.tcp t

def setFlags (f : FilterInfo) : List TcpFlag := FilterInfo.laterFlags.filter fun t => 0 < f.tcp t

theorem tcpFlags_inOrder {f : FilterInfo} (hfin : 0 < f.tcpFin)
    (hlater : FilterInfo.laterFlags.Pairwise fun t u => 0 < f.tcp t → f.tcp u ≠ 0) :
    tcpFlags f = spaced ' ' ["--tcp-flags".toList, [], "FIN".toList ++ listed (examinedFlags f),
      "FIN".toList ++ listed (setFlags f)] := by
  have hge : f.tcpFin ≥ 0 := by omega
  have hstart : addFin f.tcpFin { shcmd := " --tcp-flags ".toList } =
      ⟨" --tcp-flags ".toList ++ " FIN".toList, true, " FIN".toList, false⟩ := by
    rw [addFin, if_pos hge, if_pos hfin]
    rfl
  obtain ⟨hcmd, hflags⟩ := foldl_addFlag hlater (l := ⟨" --tcp-flags ".toList ++ " FIN".toList, true, " FIN".toList, false⟩)
    rfl fun h => nomatch h
  rw [tcpFlags_eq, hstart]
  simp only [hcmd, hflags]
  simp [spaced, examinedFlags, setFlags]

theorem readFlags_listed (ts : List TcpFlag) : readFlags ("FIN".toList ++ listed ts) = some (.fin :: ts) := by
  have hcomma : ∀ t, ',' ∉ (flagName t).toList := by
    intro t
    cases t <;> decide
  have hname : ∀ t, flagNames.find? (·.1.toList = (flagName t).toList) = some (flagName t, [t]) := by
    intro t
    cases t <;> decide
  have hne : ∀ t, (flagName t).toList ≠ [] := by
    intro t
    cases t <;> decide
  have hwords : wordsAt ',' ("FIN".toList ++ listed ts) = (TcpFlag.fin :: ts).map fun t => (flagName t).toList := by
    have hfin : wordsAt ',' "FIN".toList = ["FIN".toList] := wordsAt_of_not_mem (hcomma .fin)
    rw [listed, wordsAt_spaced (by simpa using fun t _ => hcomma t), hfin]
    have hall : (ts.map fun t => (flagName t).toList).filter (· ≠ []) = ts.map fun t => (flagName t).toList := by
      rw [List.filter_eq_self]
      simpa using fun t _ => hne t
    rw [hall]
    rfl
  have hfound : ∀ us : List TcpFlag, (us.map fun t => (flagName t).toList).mapM
      (fun v => flagNames.find? (·.1.toList = v)) = some (us.map fun t => (flagName t, [t])) := by
    intro us
    induction us with
    | nil => rfl
    | cons t us ih => simp [hname, ih]
  rw [readFlags, hwords, hfound]
  simp [List.flatMap_map]

/-! ### The words of the commands -/

variable {P : ProtocolTable} {f : FilterInfo}

def protocolWords (f : FilterInfo) : List Text := if f.protocol ≠ "*".toList then ["-p".toList, f.protocol] else []

/-- The words for an address. -/
def prefixWords (option : String) (addr : Text) (len : ℤ) : List Text :=
  if addr ≠ "*".toList then [option.toList, addr ++ "/".toList ++ int2str len] else []

/-- The words for a port. -/
def portWords (option : String) (usePorts : Bool) (port : ℤ) : List Text :=
  if port > 0 && usePorts then [option.toList, int2str port] else []

def flagWords (f : FilterInfo) : List Text :=
  if f.isTcp && f.flagGiven then
    ["--tcp-flags".toList, [], "FIN".toList ++ listed (examinedFlags f), "FIN".toList ++ listed (setFlags f)]
  else []

def samplingWords (f : FilterInfo) : List Text :=
  if f.sampling > 1 then
    ["-m".toList, "statistic".toList, "--mode".toList, "nth".toList, "--every".toList, int2str f.sampling,
      "--packet".toList, "0".toList]
  else []

def markWords (f : FilterInfo) : List Text := ["-j".toList, "MARK".toList, "--set-mark".toList, int2str f.mark]

def argWords (f : FilterInfo) : List Text :=
  protocolWords f ++ prefixWords "-d" f.destPrefix f.destMask ++ prefixWords "-s" f.srcPrefix f.srcMask ++
    portWords "--dport" f.usePorts f.destPort ++ portWords "--sport" f.usePorts f.srcPort ++ flagWords f ++
    samplingWords f ++ markWords f

theorem spaced_ite {c : Prop} [Decidable c] {t : Text} {ws : List Text} (h : c → t = spaced ' ' ws) :
    (if c then t else []) = spaced ' ' (if c then ws else []) := by
  split
  · exact h ‹_›
  · rfl

theorem shcmd_eq (h : f.FlagsInOrder) : shcmd f = spaced ' ' (argWords f) := by
  have hprefix : ∀ (option : String) (addr : Text) (len : ℤ),
      (if addr ≠ "*".toList then ' ' :: option.toList ++ " ".toList ++ addr ++ "/".toList ++ int2str len else []) =
        spaced ' ' (prefixWords option addr len) := by
    intro option addr len
    exact spaced_ite fun _ => by simp [spaced]
  have hport : ∀ (option : String) (port : ℤ),
      (if port > 0 && f.usePorts then ' ' :: option.toList ++ " ".toList ++ int2str port else []) =
        spaced ' ' (portWords option f.usePorts port) := by
    intro option port
    exact spaced_ite fun _ => by simp [spaced]
  have hprotocol : (if f.protocol ≠ "*".toList then " -p ".toList ++ f.protocol else []) =
      spaced ' ' (protocolWords f) := spaced_ite fun _ => by simp [spaced]
  have hflags : (if f.isTcp && f.flagGiven then tcpFlags f else []) = spaced ' ' (flagWords f) := by
    apply spaced_ite
    intro hgiven
    rw [Bool.and_eq_true] at hgiven
    obtain ⟨hfin, hlater⟩ := h hgiven.1 hgiven.2
    exact tcpFlags_inOrder hfin hlater
  have hsampling : (if f.sampling > 1 then
      " -m statistic --mode nth --every ".toList ++ int2str f.sampling ++ " --packet 0".toList else []) =
      spaced ' ' (samplingWords f) := spaced_ite fun _ => by simp [spaced]
  have hmark : " -j MARK --set-mark ".toList ++ int2str f.mark = spaced ' ' (markWords f) := by simp [spaced, markWords]
  simp only [argWords, spaced_append, ← hflags, ← hprotocol, ← hprefix, ← hport, ← hsampling, ← hmark, ← List.append_assoc]
  rfl

theorem not_mem_ite {c : Prop} [Decidable c] {ws : List Text} (h : c → ∀ w ∈ ws, ' ' ∉ w) :
    ∀ w ∈ (if c then ws else []), ' ' ∉ w := by
  split
  · exact h ‹_›
  · exact fun _ hw => nomatch hw

theorem not_mem_listed (ts : List TcpFlag) : ' ' ∉ "FIN".toList ++ listed ts := by
  have hname : ∀ t, ' ' ∉ (flagName t).toList := by
    intro t
    cases t <;> decide
  have hlisted : ' ' ∉ listed ts := by
    simpa [listed, spaced] using fun t _ => hname t
  exact fun h => (List.mem_append.1 h).elim (by decide) hlisted

/-- No word has a blank. -/
theorem not_mem_argWords (h : f.Valid P) : ∀ w ∈ argWords f, ' ' ∉ w := by
  have hnumber : ∀ i, ' ' ∉ int2str i := fun i => not_mem_showNat (by decide)
  have hprotocol : ∀ w ∈ protocolWords f, ' ' ∉ w := by
    apply not_mem_ite
    intro hgiven
    obtain ⟨n, hn⟩ := Option.isSome_iff_exists.1 (h.protocol hgiven)
    exact List.forall_mem_cons.2 ⟨by decide, List.forall_mem_singleton.2 (P.plain _ _ hn).2⟩
  have hprefix : ∀ (option : String) (addr : Text) (len : ℤ), ' ' ∉ option.toList →
      (addr ≠ "*".toList → (readAddr addr).isSome) → ∀ w ∈ prefixWords option addr len, ' ' ∉ w := by
    intro option addr len hoption haddr
    apply not_mem_ite
    intro hgiven
    have hblank : ' ' ∉ addr := not_mem_addr (haddr hgiven) (by decide) (by decide)
    refine List.forall_mem_cons.2 ⟨hoption, List.forall_mem_singleton.2 ?_⟩
    simpa [hblank] using hnumber len
  have hport : ∀ (option : String) (port : ℤ), ' ' ∉ option.toList →
      ∀ w ∈ portWords option f.usePorts port, ' ' ∉ w := by
    intro option port hoption
    apply not_mem_ite
    exact fun _ => List.forall_mem_cons.2 ⟨hoption, List.forall_mem_singleton.2 (hnumber port)⟩
  have hflags : ∀ w ∈ flagWords f, ' ' ∉ w := by
    apply not_mem_ite
    intro _
    refine List.forall_mem_cons.2 ⟨by decide, List.forall_mem_cons.2 ⟨by simp, ?_⟩⟩
    exact List.forall_mem_cons.2 ⟨not_mem_listed _, List.forall_mem_singleton.2 (not_mem_listed _)⟩
  have hsampling : ∀ w ∈ samplingWords f, ' ' ∉ w := by
    apply not_mem_ite
    intro _
    simpa using hnumber f.sampling
  have hmark : ∀ w ∈ markWords f, ' ' ∉ w := by simpa [markWords] using hnumber f.mark
  simp only [argWords, List.forall_mem_append]
  exact ⟨⟨⟨⟨⟨⟨⟨hprotocol, hprefix _ _ _ (by decide) fun hg => (h.dest hg).1⟩,
    hprefix _ _ _ (by decide) fun hg => (h.src hg).1⟩, hport _ _ (by decide)⟩, hport _ _ (by decide)⟩, hflags⟩,
    hsampling⟩, hmark⟩

/-! ### Reading the words -/

/-- Words with their options complete. -/
def Reads (P : ProtocolTable) (ws : List Text) (r r' : Rule) : Prop :=
  (ws.filter (· ≠ [])).foldlM (readWord P) (.option, r) = some (.option, r')

theorem Reads.append {ws vs : List Text} {r r' r'' : Rule} (hw : Reads P ws r r') (hv : Reads P vs r' r'') :
    Reads P (ws ++ vs) r r'' := by
  rw [Reads, List.filter_append, List.foldlM_append, hw]
  exact hv

theorem reads_nil (r : Rule) : Reads P [] r r := rfl

/-- An option with one argument. -/
theorem reads_pair {name : String} {o : Opt} {w : Text} {r r' : Rule}
    (hname : options.find? (·.1.toList = name.toList) = some (name, o)) (hne : name.toList ≠ []) (ho : o ≠ .tcpFlags)
    (hw : w ≠ []) (h : readArg P o w r = some r') : Reads P [name.toList, w] r r' := by
  have hfilter : [name.toList, w].filter (· ≠ []) = [name.toList, w] := by simp [hne, hw]
  have harg : readWord P (.argument o, r) w = some (.option, r') := by
    cases o <;> first | exact absurd rfl ho | simp only [readWord, h, Option.map_some]
  have hopt : readWord P (.option, r) name.toList = some (.argument o, r) := by
    rw [readWord, hname]
    rfl
  rw [Reads, hfilter, List.foldlM_cons, hopt]
  show ([w].foldlM (readWord P) (.argument o, r)) = _
  rw [List.foldlM_cons, harg]
  rfl

def protocolMeaning (P : ProtocolTable) (f : FilterInfo) : Option ℕ :=
  if f.protocol ≠ "*".toList then P.number f.protocol else none

def prefixMeaning (addr : Text) (len : ℤ) : Option (BitVec 32 × ℕ) :=
  if addr ≠ "*".toList then (readAddr addr).map fun a => (a, len.toNat) else none

def portMeaning (usePorts : Bool) (port : ℤ) : Option ℕ := if port > 0 && usePorts then some port.toNat else none

/-- The match of a filter. -/
def meaning (P : ProtocolTable) (f : FilterInfo) : Match where
  protocol := protocolMeaning P f
  dest := prefixMeaning f.destPrefix f.destMask
  src := prefixMeaning f.srcPrefix f.srcMask
  dport := portMeaning f.usePorts f.destPort
  sport := portMeaning f.usePorts f.srcPort
  tcpFlags := if f.isTcp && f.flagGiven then some (.fin :: examinedFlags f, .fin :: setFlags f) else none
  nth := if f.sampling > 1 then some (f.sampling.toNat, 0) else none
  mark := some (f.mark % 2 ^ 32).toNat

theorem reads_protocol (h : f.Valid P) (table : Option Text) (chain : Option (Text × Text)) :
    Reads P (protocolWords f) ⟨table, chain, {}⟩ ⟨table, chain, { protocol := protocolMeaning P f }⟩ := by
  rw [protocolWords, protocolMeaning]
  split
  · obtain ⟨n, hn⟩ := Option.isSome_iff_exists.1 (h.protocol ‹_›)
    apply reads_pair (o := .protocol) (by decide) (by decide) (by decide) (P.plain _ _ hn).1
    rw [readArg, hn]
    rfl
  · exact reads_nil _

/-- An address goes to the field of its option. -/
theorem reads_prefix (name : String) {o : Opt} {addr : Text} {len : ℤ} (place : Option (BitVec 32 × ℕ) → Rule)
    (hname : options.find? (·.1.toList = name.toList) = some (name, o)) (hne : name.toList ≠ []) (ho : o ≠ .tcpFlags)
    (hplace : ∀ w, readArg P o w (place none) = (readPrefix w).map fun x => place (some x))
    (h : addr ≠ "*".toList → (readAddr addr).isSome ∧ 0 ≤ len ∧ len ≤ 32) :
    Reads P (prefixWords name addr len) (place none) (place (prefixMeaning addr len)) := by
  rw [prefixWords, prefixMeaning]
  split
  · obtain ⟨haddr, h0, h32⟩ := h ‹_›
    obtain ⟨a, ha⟩ := Option.isSome_iff_exists.1 haddr
    apply reads_pair hname hne ho (by simp)
    rw [hplace, readPrefix_eq ha h0 h32, ha]
    rfl
  · exact reads_nil _

/-- A port goes to the field of its option, once there is a protocol with ports. -/
theorem reads_port (name : String) {o : Opt} {protocol : Option ℕ} {usePorts : Bool} {port : ℤ} (place : Option ℕ → Rule)
    (hname : options.find? (·.1.toList = name.toList) = some (name, o)) (hne : name.toList ≠ []) (ho : o ≠ .tcpFlags)
    (hplace : ∀ w, readArg P o w (place none) = (readPort protocol w).map fun n => place (some n))
    (hprotocol : usePorts → ∃ n ∈ protocol, n ∈ portProtocols) (h : port < 65536) :
    Reads P (portWords name usePorts port) (place none) (place (portMeaning usePorts port)) := by
  rw [portWords, portMeaning]
  split
  · rename_i hgiven
    rw [Bool.and_eq_true, decide_eq_true_eq] at hgiven
    apply reads_pair hname hne ho (int2str_ne_nil port)
    rw [hplace, readPort_eq (hprotocol hgiven.2) hgiven.1 h]
    rfl
  · exact reads_nil _

theorem usePorts_protocol (h : f.usePorts) : ∃ n ∈ protocolMeaning P f, n ∈ portProtocols := by
  simp only [FilterInfo.usePorts, FilterInfo.isTcp, Bool.or_eq_true, decide_eq_true_eq] at h
  rw [protocolMeaning]
  obtain ((h | h) | h) | h := h
  · rw [h, P.tcp]
    exact ⟨6, by decide, by decide⟩
  · rw [h, P.udp]
    exact ⟨17, by decide, by decide⟩
  · rw [h, P.dccp]
    exact ⟨33, by decide, by decide⟩
  · rw [h, P.sctp]
    exact ⟨132, by decide, by decide⟩

theorem isTcp_protocol (h : f.isTcp) : protocolMeaning P f = some 6 := by
  have hname : f.protocol = "tcp".toList := of_decide_eq_true h
  rw [protocolMeaning, hname, P.tcp]
  decide

theorem reads_flags {r : Rule} (hprotocol : f.isTcp → r.toMatch.protocol = some 6) (hnone : r.toMatch.tcpFlags = none) :
    Reads P (flagWords f) r { r with toMatch := { r.toMatch with tcpFlags := (meaning P f).tcpFlags } } := by
  rw [flagWords, meaning]
  split
  · rename_i hgiven
    rw [Bool.and_eq_true] at hgiven
    have hsix := hprotocol hgiven.1
    have hopt : readWord P (.option, r) "--tcp-flags".toList = some (.argument .tcpFlags, r) := by
      have hname : options.find? (·.1.toList = "--tcp-flags".toList) = some ("--tcp-flags", .tcpFlags) := by decide
      rw [readWord, hname]
      rfl
    have hexamined : readWord P (.argument .tcpFlags, r) ("FIN".toList ++ listed (examinedFlags f)) =
        some (.setFlags (.fin :: examinedFlags f), r) := by
      rw [readWord, if_pos hsix, readFlags_listed]
      rfl
    have hset : readWord P (.setFlags (.fin :: examinedFlags f), r) ("FIN".toList ++ listed (setFlags f)) =
        some (.option, { r with toMatch := { r.toMatch with
          tcpFlags := some (.fin :: examinedFlags f, .fin :: setFlags f) } }) := by
      have hhead : ("FIN".toList ++ listed (setFlags f)).head? = some 'F' := rfl
      rw [readWord, hhead, if_neg (by decide), readFlags_listed]
      rfl
    have hwords : ∀ a b : Text, ["--tcp-flags".toList, [], "FIN".toList ++ a, "FIN".toList ++ b].filter (· ≠ []) =
        ["--tcp-flags".toList, "FIN".toList ++ a, "FIN".toList ++ b] := fun _ _ => rfl
    rw [Reads, hwords, List.foldlM_cons, hopt]
    show ["FIN".toList ++ _, _].foldlM (readWord P) (.argument .tcpFlags, r) = _
    rw [List.foldlM_cons, hexamined]
    show [_].foldlM (readWord P) (.setFlags _, r) = _
    rw [List.foldlM_cons, hset]
    rfl
  · rw [← hnone]
    exact reads_nil _

theorem reads_sampling (h : f.Valid P) {r : Rule} (hnone : r.toMatch.nth = none) :
    Reads P (samplingWords f) r { r with toMatch := { r.toMatch with nth := (meaning P f).nth } } := by
  rw [samplingWords, meaning]
  split
  · have hlt := h.sampling
    have hpos : f.sampling.toNat > 0 := by omega
    have hmodule : Reads P ["-m".toList, "statistic".toList] r r :=
      reads_pair (o := .module) (by decide) (by decide) (by decide) (by decide) rfl
    have hmode : Reads P ["--mode".toList, "nth".toList] r r :=
      reads_pair (o := .mode) (by decide) (by decide) (by decide) (by decide) rfl
    have hevery : Reads P ["--every".toList, int2str f.sampling] r
        { r with toMatch := { r.toMatch with nth := some (f.sampling.toNat, 0) } } := by
      apply reads_pair (o := .every) (by decide) (by decide) (by decide) (int2str_ne_nil _)
      rw [readArg, readNat_int2str (by omega) (by omega)]
      simp [hpos]
    have hpacket : Reads P ["--packet".toList, "0".toList]
        { r with toMatch := { r.toMatch with nth := some (f.sampling.toNat, 0) } }
        { r with toMatch := { r.toMatch with nth := some (f.sampling.toNat, 0) } } := by
      apply reads_pair (o := .packet) (by decide) (by decide) (by decide) (by decide)
      have hzero : readNat "0".toList = some 0 := by decide
      simp only [readArg, hzero]
      exact if_pos hpos
    exact ((hmodule.append hmode).append hevery).append hpacket
  · rw [← hnone]
    exact reads_nil _

theorem reads_mark (r : Rule) :
    Reads P (markWords f) r { r with toMatch := { r.toMatch with mark := (meaning P f).mark } } := by
  have hjump : Reads P ["-j".toList, "MARK".toList] r r :=
    reads_pair (o := .jump) (by decide) (by decide) (by decide) (by decide) rfl
  have hset : Reads P ["--set-mark".toList, int2str f.mark] r
      { r with toMatch := { r.toMatch with mark := (meaning P f).mark } } := by
    apply reads_pair (o := .setMark) (by decide) (by decide) (by decide) (int2str_ne_nil _)
    have hlt : (f.mark % 2 ^ 32).toNat < 2 ^ 32 := by omega
    rw [readArg, int2str, readNat_showNat, Option.filter_some_pos (by simpa using hlt)]
    rfl
  exact hjump.append hset

/-- The words that the commands have in common are read as the match of the filter. -/
theorem reads_argWords (h : f.Valid P) (table : Option Text) (chain : Option (Text × Text)) :
    Reads P (argWords f) ⟨table, chain, {}⟩ ⟨table, chain, meaning P f⟩ := by
  have hprotocol := reads_protocol h table chain
  have hdest := reads_prefix (P := P) "-d" (o := .dest)
    (fun x => ⟨table, chain, { protocol := protocolMeaning P f, dest := x }⟩)
    (by decide) (by decide) (by decide) (fun _ => rfl) h.dest
  have hsrc := reads_prefix (P := P) "-s" (o := .src)
    (fun x => ⟨table, chain, {
      protocol := protocolMeaning P f, dest := prefixMeaning f.destPrefix f.destMask, src := x }⟩)
    (by decide) (by decide) (by decide) (fun _ => rfl) h.src
  have hdport := reads_port (P := P) "--dport" (o := .dport) (fun x => ⟨table, chain, {
      protocol := protocolMeaning P f, dest := prefixMeaning f.destPrefix f.destMask
      src := prefixMeaning f.srcPrefix f.srcMask, dport := x }⟩)
    (by decide) (by decide) (by decide) (fun _ => rfl) usePorts_protocol h.destPort
  have hsport := reads_port (P := P) "--sport" (o := .sport) (fun x => ⟨table, chain, {
      protocol := protocolMeaning P f, dest := prefixMeaning f.destPrefix f.destMask
      src := prefixMeaning f.srcPrefix f.srcMask, dport := portMeaning f.usePorts f.destPort, sport := x }⟩)
    (by decide) (by decide) (by decide) (fun _ => rfl) usePorts_protocol h.srcPort
  exact ((((((hprotocol.append hdest).append hsrc).append hdport).append hsport).append
    (reads_flags isTcp_protocol rfl)).append (reads_sampling h rfl)).append (reads_mark _)

/-- A command for a table and a chain. -/
theorem readRule_command (h : f.Valid P) (hflags : f.FlagsInOrder) {table : String} (action : String) {chain : String} {o : Opt}
    (htable : table.toList ≠ [] ∧ ' ' ∉ table.toList) (hchain : chain.toList ≠ [] ∧ ' ' ∉ chain.toList)
    (haction : options.find? (·.1.toList = action.toList) = some (action, o))
    (hname : action.toList ≠ [] ∧ ' ' ∉ action.toList) (ho : o ≠ .tcpFlags)
    (harg : readArg P o chain.toList ⟨some table.toList, none, {}⟩ =
      some ⟨some table.toList, some (action.toList, chain.toList), {}⟩) :
    readRule P ("iptables -t ".toList ++ table.toList ++ " ".toList ++ action.toList ++ " ".toList ++ chain.toList ++
      shcmd f) = some ⟨some table.toList, some (action.toList, chain.toList), meaning P f⟩ := by
  have htext : "iptables -t ".toList ++ table.toList ++ " ".toList ++ action.toList ++ " ".toList ++ chain.toList ++
      shcmd f = "iptables".toList ++
        spaced ' ' (["-t".toList, table.toList] ++ [action.toList, chain.toList] ++ argWords f) := by
    rw [shcmd_eq hflags, spaced_append]
    simp [spaced]
  have hblank : ∀ w ∈ ["-t".toList, table.toList] ++ [action.toList, chain.toList] ++ argWords f, ' ' ∉ w := by
    simp only [List.forall_mem_append]
    refine ⟨⟨?_, ?_⟩, not_mem_argWords h⟩
    · exact List.forall_mem_cons.2 ⟨by decide, List.forall_mem_singleton.2 htable.2⟩
    · exact List.forall_mem_cons.2 ⟨hname.2, List.forall_mem_singleton.2 hchain.2⟩
  have hfirst : Reads P ["-t".toList, table.toList] {} ⟨some table.toList, none, {}⟩ :=
    reads_pair (o := .table) (by decide) (by decide) (by decide) htable.1 rfl
  have hsecond : Reads P [action.toList, chain.toList] ⟨some table.toList, none, {}⟩
      ⟨some table.toList, some (action.toList, chain.toList), {}⟩ := reads_pair haction hname.1 ho hchain.1 harg
  have hall := (hfirst.append hsecond).append (reads_argWords h (some table.toList) (some (action.toList, chain.toList)))
  have hiptables : wordsAt ' ' "iptables".toList = ["iptables".toList] := by decide
  rw [readRule, htext, wordsAt_spaced hblank, hiptables]
  simp only [List.singleton_append, if_true]
  rw [hall]

/-! ### The packets -/

theorem mem_ite {α : Type} {c : Prop} [Decidable c] {o : Option α} {x : α} : x ∈ (if c then o else none) ↔ c ∧ x ∈ o := by
  split <;> simp [*]

theorem mem_prefixMeaning {addr : Text} {len : ℤ} {x : BitVec 32 × ℕ} :
    x ∈ prefixMeaning addr len ↔ addr ≠ "*".toList ∧ ∃ a ∈ readAddr addr, (a, len.toNat) = x := by
  rw [prefixMeaning, mem_ite, Option.mem_def, Option.map_eq_some_iff]
  rfl

theorem mem_portMeaning {usePorts : Bool} {port : ℤ} {n : ℕ} :
    n ∈ portMeaning usePorts port ↔ (0 < port ∧ usePorts) ∧ port.toNat = n := by
  rw [portMeaning, mem_ite, Option.mem_some_iff, Bool.and_eq_true, decide_eq_true_eq]

theorem mem_examinedFlags (h : 0 < f.tcpFin) (t : TcpFlag) : t ∈ .fin :: examinedFlags f ↔ 0 ≤ f.tcp t := by
  cases t with
  | fin =>
    have hfin : 0 ≤ f.tcp .fin := Int.le_of_lt h
    simp [hfin]
  | _ => simp [examinedFlags, FilterInfo.laterFlags]

theorem mem_setFlags (h : 0 < f.tcpFin) (t : TcpFlag) : t ∈ .fin :: setFlags f ↔ 0 < f.tcp t := by
  cases t with
  | fin =>
    have hfin : 0 < f.tcp .fin := h
    simp [hfin]
  | _ => simp [setFlags, FilterInfo.laterFlags]

theorem flagGiven_of_nonneg {t : TcpFlag} (h : 0 ≤ f.tcp t) : f.flagGiven := by
  cases t <;> simp_all [FilterInfo.flagGiven, FilterInfo.tcp]

/-- The flags of a match, where FIN is to be set. -/
theorem selects_flags (h : f.FlagsInOrder) (p : Packet) :
    (∀ x ∈ (meaning P f).tcpFlags, ∀ t, t ∈ x.1 ∧ p.flags t = true ↔ t ∈ x.2) ↔
      (f.isTcp → ∀ t, 0 ≤ f.tcp t → (p.flags t = true ↔ 0 < f.tcp t)) := by
  have hmem : ∀ x, x ∈ (meaning P f).tcpFlags ↔
      (f.isTcp ∧ f.flagGiven) ∧ (.fin :: examinedFlags f, .fin :: setFlags f) = x := by
    intro x
    rw [meaning, mem_ite, Option.mem_some_iff, Bool.and_eq_true]
  constructor
  · intro hall htcp t ht
    have hgiven := flagGiven_of_nonneg ht
    have hfin := (h htcp hgiven).1
    have hflag := hall _ ((hmem _).2 ⟨⟨htcp, hgiven⟩, rfl⟩) t
    rw [mem_examinedFlags hfin, mem_setFlags hfin] at hflag
    rw [← hflag]
    exact ⟨fun hset => ⟨ht, hset⟩, fun hset => hset.2⟩
  · intro hall x hx t
    obtain ⟨⟨htcp, hgiven⟩, rfl⟩ := (hmem x).1 hx
    have hfin := (h htcp hgiven).1
    rw [mem_examinedFlags hfin, mem_setFlags hfin]
    constructor
    · rintro ⟨ht, hset⟩
      exact (hall htcp t ht).1 hset
    · intro ht
      exact ⟨Int.le_of_lt ht, (hall htcp t (Int.le_of_lt ht)).2 ht⟩

theorem forall_prefixMeaning {addr : Text} (len : ℤ) (a : BitVec 32) (h : addr ≠ "*".toList → (readAddr addr).isSome) :
    (∀ x ∈ prefixMeaning addr len, SamePrefix x.2 x.1 a) ↔
      (addr ≠ "*".toList → ∃ b ∈ readAddr addr, SamePrefix len.toNat b a) := by
  constructor
  · intro hall hgiven
    obtain ⟨b, hb⟩ := Option.isSome_iff_exists.1 (h hgiven)
    exact ⟨b, hb, hall _ (mem_prefixMeaning.2 ⟨hgiven, b, hb, rfl⟩)⟩
  · intro hall x hx
    obtain ⟨hgiven, b, hb, rfl⟩ := mem_prefixMeaning.1 hx
    obtain ⟨b', hb', hsame⟩ := hall hgiven
    rw [Option.mem_unique hb hb']
    exact hsame

theorem forall_portMeaning {usePorts : Bool} {port : ℤ} {k : ℕ} :
    (∀ n ∈ portMeaning usePorts port, k = n) ↔ (usePorts → 0 < port → k = port) := by
  constructor
  · intro hall huse hpos
    rw [hall _ (mem_portMeaning.2 ⟨⟨hpos, huse⟩, rfl⟩)]
    omega
  · intro hall n hn
    obtain ⟨⟨hpos, huse⟩, rfl⟩ := mem_portMeaning.1 hn
    have hk := hall huse hpos
    omega

theorem forall_protocolMeaning {k : ℕ} (h : f.Valid P) :
    (∀ n ∈ protocolMeaning P f, n = 0 ∨ k = n) ↔
      (f.protocol ≠ "*".toList → ∃ n ∈ P.number f.protocol, n = 0 ∨ k = n) := by
  constructor
  · intro hall hgiven
    obtain ⟨n, hn⟩ := Option.isSome_iff_exists.1 (h.protocol hgiven)
    exact ⟨n, hn, hall n (mem_ite.2 ⟨hgiven, hn⟩)⟩
  · intro hall n hn
    obtain ⟨hgiven, hn⟩ := mem_ite.1 hn
    obtain ⟨n', hn', hsame⟩ := hall hgiven
    rw [Option.mem_unique hn hn']
    exact hsame

theorem forall_nth (seen : ℕ) : (∀ x ∈ (meaning P f).nth, (seen + x.2 + 1) % x.1 = 0) ↔
    (1 < f.sampling → (seen + 1 : ℤ) % f.sampling = 0) := by
  have hmem : ∀ x, x ∈ (meaning P f).nth ↔ f.sampling > 1 ∧ (f.sampling.toNat, 0) = x := by
    intro x
    rw [meaning, mem_ite, Option.mem_some_iff]
  have hcast : 1 < f.sampling → ((seen + 0 + 1) % f.sampling.toNat = 0 ↔ (seen + 1 : ℤ) % f.sampling = 0) := by
    intro hgt
    have hnat : (f.sampling.toNat : ℤ) = f.sampling := by omega
    rw [← hnat]
    norm_cast
  constructor
  · intro hall hgt
    exact (hcast hgt).1 (hall _ ((hmem _).2 ⟨hgt, rfl⟩))
  · intro hall x hx
    obtain ⟨hgt, rfl⟩ := (hmem x).1 hx
    exact (hcast hgt).2 (hall hgt)

/-- The match of a filter selects the packets that have what is looked at. -/
theorem selects_meaning (h : f.Valid P) (hflags : f.FlagsInOrder) (seen : ℕ) (p : Packet) :
    (meaning P f).Selects seen p ↔ f.Examined P seen p := by
  have hdest := forall_prefixMeaning f.destMask p.daddr fun hg => (h.dest hg).1
  have hsrc := forall_prefixMeaning f.srcMask p.saddr fun hg => (h.src hg).1
  constructor
  · intro hs
    exact ⟨⟨(forall_protocolMeaning h).1 hs.protocol, hdest.1 hs.dest, hsrc.1 hs.src⟩, forall_portMeaning.1 hs.dport,
      forall_portMeaning.1 hs.sport, (selects_flags hflags p).1 hs.tcpFlags, (forall_nth seen).1 hs.nth⟩
  · intro he
    exact ⟨(forall_protocolMeaning h).2 he.protocol, hdest.2 he.dest, hsrc.2 he.src, forall_portMeaning.2 he.destPort,
      forall_portMeaning.2 he.srcPort, (selects_flags hflags p).2 he.flags, (forall_nth seen).2 he.sampling⟩

/-- What both daemons' commands have for a match. -/
theorem readRule_commandsOf (h : f.Valid P) (hflags : f.FlagsInOrder) {refused : Text → Option String}
    {chain₁ chain₂ : String} (h₁ : chain₁.toList ≠ [] ∧ ' ' ∉ chain₁.toList) (h₂ : chain₂.toList ≠ [] ∧ ' ' ∉ chain₂.toList)
    {isdel : Bool} {first second : Text} (hcommands : commandsOf refused chain₁ chain₂ f isdel = .ok (first, second)) :
    (∃ chain, readRule P first = some ⟨some "mangle".toList, chain, meaning P f⟩) ∧
      ∃ chain, readRule P second = some ⟨some "filter".toList, chain, meaning P f⟩ := by
  have hmangle : ("mangle" : String).toList ≠ [] ∧ ' ' ∉ "mangle".toList := by decide
  have hfilter : ("filter" : String).toList ≠ [] ∧ ' ' ∉ "filter".toList := by decide
  have hdelete : ∀ table : String, table.toList ≠ [] ∧ ' ' ∉ table.toList → ∀ chain : String,
      chain.toList ≠ [] ∧ ' ' ∉ chain.toList → _ := fun table ht chain hc =>
    readRule_command h hflags "-D" (o := .delete) ht hc (by decide) (by decide) (by decide) rfl
  have hinsert := readRule_command h hflags "-I" (o := .insert) hmangle h₁ (by decide) (by decide) (by decide)
    rfl
  have happend := readRule_command h hflags "-A" (o := .append) hfilter h₂ (by decide) (by decide) (by decide)
    rfl
  cases isdel with
  | true =>
    cases hcommands
    exact ⟨⟨_, hdelete _ hmangle _ h₁⟩, _, hdelete _ hfilter _ h₂⟩
  | false =>
    simp only [commandsOf, Bool.false_eq_true, if_false] at hcommands
    split at hcommands
    · cases hcommands
    · cases hcommands
      exact ⟨⟨_, hinsert⟩, _, happend⟩

/-- Both daemons select the packets that have what they look at of a filter, with the same match. -/
theorem filterCommand_selects (P : ProtocolTable) (f : FilterInfo) (h : f.Valid P) (hflags : f.FlagsInOrder) :
    ∃ m : Match, (∀ seen p, m.Selects seen p ↔ f.Examined P seen p) ∧
      ∀ command ∈ [Router.filterCommand, HostConfiguration.filterCommand], ∀ isdel first second,
        command f isdel = .ok (first, second) →
          (∃ chain, readRule P first = some ⟨some "mangle".toList, chain, m⟩) ∧
            ∃ chain, readRule P second = some ⟨some "filter".toList, chain, m⟩ := by
  refine ⟨meaning P f, selects_meaning h hflags, ?_⟩
  intro command hcommand isdel first second hcommands
  simp only [List.mem_cons, List.not_mem_nil, or_false] at hcommand
  obtain rfl | rfl := hcommand
  · exact readRule_commandsOf h hflags (by decide) (by decide) hcommands
  · exact readRule_commandsOf h hflags (by decide) (by decide) hcommands

def someProtocols : List (String × ℕ) := [("icmp", 1), ("tcp", 6), ("udp", 17), ("dccp", 33), ("sctp", 132)]

def protocolTable : ProtocolTable where
  number w := (someProtocols.find? (·.1.toList = w)).map (·.2)
  tcp := by decide
  udp := by decide
  dccp := by decide
  sctp := by decide
  plain w n h := by
    obtain ⟨x, hx, -⟩ := Option.map_eq_some_iff.1 h
    have hname : x.1.toList = w := by simpa using List.find?_some hx
    have hall : ∀ x ∈ someProtocols, x.1.toList ≠ [] ∧ ' ' ∉ x.1.toList := by decide
    rw [← hname]
    exact hall x (List.mem_of_find?_eq_some hx)

/-- TCP to a network, with FIN and ACK and without SYN. -/
def finAck : FilterInfo where
  destPrefix := "192.168.1.0".toList
  destMask := 24
  srcPrefix := "*".toList
  srcMask := 0
  protocol := "tcp".toList
  destPort := 80
  srcPort := -1
  tcpFin := 1
  tcpSyn := 0
  tcpRst := -1
  tcpPsh := -1
  tcpAck := 1
  tcpUrg := -1
  sampling := 1
  mark := 12

theorem valid_finAck : finAck.Valid protocolTable := by
  constructor <;> decide

theorem finAck_selects :
    ∃ m : Match, (∀ seen p, m.Selects seen p ↔ finAck.Examined protocolTable seen p) ∧
      ∀ command ∈ [Router.filterCommand, HostConfiguration.filterCommand], ∀ isdel first second,
        command finAck isdel = .ok (first, second) →
          (∃ chain, readRule protocolTable first = some ⟨some "mangle".toList, chain, m⟩) ∧
            ∃ chain, readRule protocolTable second = some ⟨some "filter".toList, chain, m⟩ :=
  filterCommand_selects protocolTable finAck valid_finAck (by decide)

/-- A port without a protocol. -/
def anyProtocol : FilterInfo := { finAck with protocol := "*".toList, tcpFin := -1, tcpSyn := -1, tcpAck := -1 }

/-- Not to the port. -/
def toPort53 : Packet where
  daddr := 0xc0a80107#32
  saddr := 0xc0a80201#32
  protocol := 17
  dport := 53
  sport := 4000
  flags := fun _ => false

/-- SYN alone gets no list of the flags that are set. -/
def syn : FilterInfo := { finAck with tcpFin := -1, tcpSyn := 1, tcpAck := -1 }

/-- A filter with a port for any protocol selects packets to other ports, and a filter for TCP packets with SYN is no rule. -/
theorem filterCommand_not_satisfied :
    (∃ first second, Router.filterCommand anyProtocol false = .ok (first, second) ∧
      ∃ r, readRule protocolTable first = some r ∧ r.toMatch.Selects 0 toPort53 ∧
        ¬anyProtocol.Satisfied protocolTable toPort53) ∧
    ∃ first second, Router.filterCommand syn false = .ok (first, second) ∧ readRule protocolTable first = none := by
  have hvalid : anyProtocol.Valid protocolTable := by constructor <;> decide
  have hflags : anyProtocol.FlagsInOrder := by decide
  constructor
  · obtain ⟨⟨first, second⟩, hcommands⟩ : ∃ c, Router.filterCommand anyProtocol false = .ok c := ⟨_, rfl⟩
    obtain ⟨⟨chain, hread⟩, -⟩ := readRule_commandsOf hvalid hflags (by decide) (by decide) hcommands
    refine ⟨first, second, hcommands, _, hread, (selects_meaning hvalid hflags 0 toPort53).2 ?_, ?_⟩
    · have hnet : ∃ a ∈ readAddr anyProtocol.destPrefix, SamePrefix anyProtocol.destMask.toNat a toPort53.daddr :=
        ⟨0xc0a80100#32, by rfl, by decide⟩
      exact ⟨⟨by decide, fun _ => hnet, by decide⟩, by decide, by decide, fun h => absurd h (by decide), by decide⟩
    · exact fun hs => absurd (hs.destPort (by decide)) (by decide)
  · exact ⟨_, _, rfl, by decide⟩

end OnlDaemons.Swrouter
