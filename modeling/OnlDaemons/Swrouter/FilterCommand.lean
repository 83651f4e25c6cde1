import Mathlib
import OnlDaemons.Lib.Words

/-!
# The iptables commands of a filter

The software router and the host filter daemon hand a filter to `iptables` as two commands. What selects the packets is put
together from pieces of text, one for each field that is looked at, and is the same in both daemons; the two differ in the
addresses they take and in the chains. Of `iptables` the options are here that the commands use.

## Main definitions

- `FilterInfo`, `Router.filterCommand`, `HostConfiguration.filterCommand` — a filter and its commands
- `Iptables.readRule`, `Match.Selects` — how a command is read, and the packets that its match selects
- `FilterInfo.Satisfied`, `FilterInfo.Examined` — a packet has what the filter gives, and what the daemons look at of it
-/

namespace OnlDaemons.Swrouter
open OnlDaemons.Lib

abbrev Text := List Char

/-! ### Writing -/

inductive TcpFlag
  | fin | syn | rst | psh | ack | urg
deriving DecidableEq, Repr

/-- The fields of `filter_info` that the commands have. A port and a flag may be -1. -/
structure FilterInfo where
  destPrefix : Text
  destMask : ℤ
  srcPrefix : Text
  srcMask : ℤ
  protocol : Text
  destPort : ℤ
  srcPort : ℤ
  tcpFin : ℤ
  tcpSyn : ℤ
  tcpRst : ℤ
  tcpPsh : ℤ
  tcpAck : ℤ
  tcpUrg : ℤ
  sampling : ℤ
  mark : ℤ
deriving DecidableEq, Repr

def FilterInfo.tcp (f : FilterInfo) : TcpFlag → ℤ
  | .fin => f.tcpFin
  | .syn => f.tcpSyn
  | .rst => f.tcpRst
  | .psh => f.tcpPsh
  | .ack => f.tcpAck
  | .urg => f.tcpUrg

def showNat (n : ℕ) : Text := Nat.toDigits 10 n

/-- The parameter of `int2str` is an `unsigned int`. -/
def int2str (i : ℤ) : Text := showNat (i % 2 ^ 32).toNat

/-- What the code for the TCP flags has put together: what goes to `shcmd`, and its variables. -/
structure FlagLists where
  shcmd : Text
  listStarted : Bool := false
  onFlags : Text := []
  on : Bool := false

/-- The code for `tcp_fin`. -/
def addFin (value : ℤ) (l : FlagLists) : FlagLists :=
  if value ≥ 0 then
    { l with
      shcmd := l.shcmd ++ " FIN".toList
      listStarted := true
      onFlags := if value > 0 then l.onFlags ++ " FIN".toList else l.onFlags }
  else l

/-- The code for each of the other flags. -/
def addFlag (name : String) (value : ℤ) (l : FlagLists) : FlagLists :=
  if value ≥ 0 then
    let on := l.on || decide (value > 0)
    { shcmd := l.shcmd ++ (if l.listStarted then ",".toList else " ".toList) ++ name.toList
      listStarted := true
      onFlags := l.onFlags ++ (if l.listStarted && on then ",".toList else []) ++ if on then name.toList else []
      on }
  else l

/-- The part for the TCP flags. -/
def tcpFlags (f : FilterInfo) : Text :=
  let l := addFin f.tcpFin { shcmd := " --tcp-flags ".toList }
  let l := addFlag "SYN" f.tcpSyn l
  let l := addFlag "RST" f.tcpRst l
  let l := addFlag "PSH" f.tcpPsh l
  let l := addFlag "ACK" f.tcpAck l
  let l := addFlag "URG" f.tcpUrg l
  l.shcmd ++ l.onFlags

def FilterInfo.isTcp (f : FilterInfo) : Bool := f.protocol = "tcp".toList

def FilterInfo.usePorts (f : FilterInfo) : Bool :=
  f.isTcp || f.protocol = "udp".toList || f.protocol = "dccp".toList || f.protocol = "sctp".toList

def FilterInfo.flagGiven (f : FilterInfo) : Bool :=
  f.tcpFin ≥ 0 || f.tcpSyn ≥ 0 || f.tcpRst ≥ 0 || f.tcpPsh ≥ 0 || f.tcpAck ≥ 0 || f.tcpUrg ≥ 0

/-- `shcmd`, which both daemons put together alike. -/
def shcmd (f : FilterInfo) : Text :=
  (if f.protocol ≠ "*".toList then " -p ".toList ++ f.protocol else []) ++
  (if f.destPrefix ≠ "*".toList then " -d ".toList ++ f.destPrefix ++ "/".toList ++ int2str f.destMask else []) ++
  (if f.srcPrefix ≠ "*".toList then " -s ".toList ++ f.srcPrefix ++ "/".toList ++ int2str f.srcMask else []) ++
  (if f.destPort > 0 && f.usePorts then " --dport ".toList ++ int2str f.destPort else []) ++
  (if f.srcPort > 0 && f.usePorts then " --sport ".toList ++ int2str f.srcPort else []) ++
  (if f.isTcp && f.flagGiven then tcpFlags f else []) ++
  (if f.sampling > 1 then " -m statistic --mode nth --every ".toList ++ int2str f.sampling ++ " --packet 0".toList
    else []) ++
  " -j MARK --set-mark ".toList ++ int2str f.mark

/-- The two commands; `refused` is the exception for an address of a filter that is added. -/
def commandsOf (refused : Text → Option String) (chain₁ chain₂ : String) (f : FilterInfo) (isdel : Bool) :
    Except String (Text × Text) :=
  let command (table action chain : String) : Text :=
    "iptables -t ".toList ++ table.toList ++ " ".toList ++ action.toList ++ " ".toList ++ chain.toList ++ shcmd f
  if isdel then .ok (command "mangle" "-D" chain₁, command "filter" "-D" chain₂)
  else
    match (refused f.destPrefix).or (refused f.srcPrefix) with
    | some text => .error text
    | none => .ok (command "mangle" "-I" chain₁, command "filter" "-A" chain₂)

/-- `Router::filter_command`, up to the system calls. -/
def Router.filterCommand : FilterInfo → Bool → Except String (Text × Text) :=
  commandsOf
    (fun p =>
      if (if '.' ∈ p then p.takeWhile (· ≠ '.') = "10".toList else p ≠ "*".toList) then
        some "add filter prefix needs valid prefix or *"
      else none)
    "PREROUTING" "FORWARD"

/-- `HostConfiguration::filter_command`, up to the system calls. -/
def HostConfiguration.filterCommand : FilterInfo → Bool → Except String (Text × Text) :=
  commandsOf
    (fun p =>
      if p.take 3 ≠ "192".toList ∧ p.take 3 ≠ "224".toList ∧ p.take 1 ≠ "0".toList ∧ p ≠ "*".toList then
        some "add filter prefix needs to start with 192 or 224 or 0"
      else none)
    "OUTPUT" "OUTPUT"

/-! ### Packets -/

structure Packet where
  daddr : BitVec 32
  saddr : BitVec 32
  protocol : ℕ
  dport : ℕ
  sport : ℕ
  flags : TcpFlag → Bool

/-- The protocols that `iptables` knows, with their numbers; 0 stands for all. A name has no blank. -/
structure ProtocolTable where
  number : Text → Option ℕ
  tcp : number "tcp".toList = some 6
  udp : number "udp".toList = some 17
  dccp : number "dccp".toList = some 33
  sctp : number "sctp".toList = some 132
  plain : ∀ w n, number w = some n → w ≠ [] ∧ ' ' ∉ w

/-- The protocols with ports. -/
def portProtocols : List ℕ := [6, 17, 33, 132]

def readNat (w : Text) : Option ℕ :=
  if w ≠ [] ∧ w.all Char.isDigit then some (Nat.ofDigitChars 10 w 0) else none

/-- An address with dots. -/
def readAddr (w : Text) : Option (BitVec 32) := do
  match ← (w.splitOn '.').mapM readNat with
  | [a, b, c, d] =>
    if a < 256 ∧ b < 256 ∧ c < 256 ∧ d < 256 then some (BitVec.ofNat 32 (((a * 256 + b) * 256 + c) * 256 + d)) else none
  | _ => none

/-- Two addresses agree in their first `len` bits. -/
def SamePrefix (len : ℕ) (a b : BitVec 32) : Prop := a >>> (32 - len) = b >>> (32 - len)

instance (len : ℕ) (a b : BitVec 32) : Decidable (SamePrefix len a b) := inferInstanceAs (Decidable (_ = _))

/-! ### Reading -/

structure Match where
  protocol : Option ℕ := none
  dest : Option (BitVec 32 × ℕ) := none
  src : Option (BitVec 32 × ℕ) := none
  dport : Option ℕ := none
  sport : Option ℕ := none
  /-- the flags that are examined, and those of them that are set -/
  tcpFlags : Option (List TcpFlag × List TcpFlag) := none
  /-- a packet of so many, and where the count starts -/
  nth : Option (ℕ × ℕ) := none
  mark : Option ℕ := none
deriving DecidableEq, Repr

/-- `seen` packets had all the rest before. -/
structure Match.Selects (m : Match) (seen : ℕ) (p : Packet) : Prop where
  protocol : ∀ n ∈ m.protocol, n = 0 ∨ p.protocol = n
  dest : ∀ x ∈ m.dest, SamePrefix x.2 x.1 p.daddr
  src : ∀ x ∈ m.src, SamePrefix x.2 x.1 p.saddr
  dport : ∀ n ∈ m.dport, p.dport = n
  sport : ∀ n ∈ m.sport, p.sport = n
  tcpFlags : ∀ x ∈ m.tcpFlags, ∀ t, t ∈ x.1 ∧ p.flags t = true ↔ t ∈ x.2
  nth : ∀ x ∈ m.nth, (seen + x.2 + 1) % x.1 = 0

structure Rule where
  table : Option Text := none
  chain : Option (Text × Text) := none
  toMatch : Match := {}
deriving DecidableEq, Repr

namespace Iptables

inductive Opt
  | table | insert | append | delete | protocol | dest | src | dport | sport | tcpFlags | module | mode | every | packet
  | jump | setMark
deriving DecidableEq, Repr

def options : List (String × Opt) :=
  [("-t", .table), ("-I", .insert), ("-A", .append), ("-D", .delete), ("-p", .protocol), ("-d", .dest), ("-s", .src),
    ("--dport", .dport), ("--sport", .sport), ("--tcp-flags", .tcpFlags), ("-m", .module), ("--mode", .mode),
    ("--every", .every), ("--packet", .packet), ("-j", .jump), ("--set-mark", .setMark)]

def flagNames : List (String × List TcpFlag) :=
  [("FIN", [.fin]), ("SYN", [.syn]), ("RST", [.rst]), ("PSH", [.psh]), ("ACK", [.ack]), ("URG", [.urg]),
    ("ALL", [.fin, .syn, .rst, .psh, .ack, .urg]), ("NONE", [])]

/-- A list of flags with commas. -/
def readFlags (w : Text) : Option (List TcpFlag) := do
  let found ← (wordsAt ',' w).mapM fun v => flagNames.find? (·.1.toList = v)
  pure (found.flatMap (·.2))

/-- An address with the length of its prefix. -/
def readPrefix (w : Text) : Option (BitVec 32 × ℕ) :=
  match w.splitOn '/' with
  | [a, len] => do
    let a ← readAddr a
    let len ← readNat len
    if len ≤ 32 then some (a, len) else none
  | _ => none

/-- Ports can be given for the protocols that have them. -/
def readPort (protocol : Option ℕ) (w : Text) : Option ℕ :=
  if ∃ n ∈ protocol, n ∈ portProtocols then (readNat w).filter (· < 65536) else none

/-- The option with its argument, but for the two of the TCP flags. -/
def readArg (P : ProtocolTable) (o : Opt) (w : Text) (r : Rule) : Option Rule :=
  let m := r.toMatch
  match o with
  | .table => some { r with table := some w }
  | .insert => some { r with chain := some ("-I".toList, w) }
  | .append => some { r with chain := some ("-A".toList, w) }
  | .delete => some { r with chain := some ("-D".toList, w) }
  | .protocol => (P.number w).map fun n => { r with toMatch := { m with protocol := some n } }
  | .dest => (readPrefix w).map fun x => { r with toMatch := { m with dest := some x } }
  | .src => (readPrefix w).map fun x => { r with toMatch := { m with src := some x } }
  | .dport => (readPort m.protocol w).map fun n => { r with toMatch := { m with dport := some n } }
  | .sport => (readPort m.protocol w).map fun n => { r with toMatch := { m with sport := some n } }
  | .tcpFlags => none
  | .module => if w = "statistic".toList then some r else none
  | .mode => if w = "nth".toList then some r else none
  | .every =>
    ((readNat w).filter (· > 0)).map fun n => { r with toMatch := { m with nth := some (n, 0) } }
  | .packet =>
    match m.nth, readNat w with
    | some (every, _), some n => if n < every then some { r with toMatch := { m with nth := some (every, n) } } else none
    | _, _ => none
  | .jump => if w = "MARK".toList then some r else none
  | .setMark => ((readNat w).filter (· < 2 ^ 32)).map fun n => { r with toMatch := { m with mark := some n } }

/-- What the next word is. -/
inductive Expected
  | option
  | argument (o : Opt)
  | setFlags (examined : List TcpFlag)
deriving DecidableEq, Repr

/-- `--tcp-flags` needs the protocol, and two arguments that are not options. -/
def readWord (P : ProtocolTable) : Expected × Rule → Text → Option (Expected × Rule)
  | (.option, r), w => (options.find? (·.1.toList = w)).map fun x => (.argument x.2, r)
  | (.argument .tcpFlags, r), w =>
    if r.toMatch.protocol = some 6 then (readFlags w).map fun l => (.setFlags l, r) else none
  | (.argument o, r), w => (readArg P o w r).map fun r => (.option, r)
  | (.setFlags examined, r), w =>
    if w.head? = some '-' ∨ w.head? = some '!' then none
    else (readFlags w).map fun l => (.option, { r with toMatch := { r.toMatch with tcpFlags := some (examined, l) } })

/-- The rule of a command; no option misses its argument. -/
def readRule (P : ProtocolTable) (t : Text) : Option Rule :=
  match wordsAt ' ' t with
  | name :: ws =>
    if name = "iptables".toList then
      match ws.foldlM (readWord P) (.option, {}) with
      | some (.option, r) => some r
      | _ => none
    else none
  | [] => none

end Iptables

/-! ### What a filter means -/

namespace FilterInfo

variable (P : ProtocolTable)

/-- The values of the fields are values of their kind. -/
structure Valid (f : FilterInfo) : Prop where
  protocol : f.protocol ≠ "*".toList → (P.number f.protocol).isSome
  dest : f.destPrefix ≠ "*".toList → (readAddr f.destPrefix).isSome ∧ 0 ≤ f.destMask ∧ f.destMask ≤ 32
  src : f.srcPrefix ≠ "*".toList → (readAddr f.srcPrefix).isSome ∧ 0 ≤ f.srcMask ∧ f.srcMask ≤ 32
  destPort : f.destPort < 65536
  srcPort : f.srcPort < 65536
  sampling : f.sampling < 2 ^ 31

/-- The packet has the protocol and the addresses that are given. -/
structure Agrees (f : FilterInfo) (p : Packet) : Prop where
  protocol : f.protocol ≠ "*".toList → ∃ n ∈ P.number f.protocol, n = 0 ∨ p.protocol = n
  dest : f.destPrefix ≠ "*".toList → ∃ a ∈ readAddr f.destPrefix, SamePrefix f.destMask.toNat a p.daddr
  src : f.srcPrefix ≠ "*".toList → ∃ a ∈ readAddr f.srcPrefix, SamePrefix f.srcMask.toNat a p.saddr

/-- The packet has all that is given. -/
structure Satisfied (f : FilterInfo) (p : Packet) : Prop extends Agrees P f p where
  destPort : 0 ≤ f.destPort → p.dport = f.destPort
  srcPort : 0 ≤ f.srcPort → p.sport = f.srcPort
  flags : ∀ t, 0 ≤ f.tcp t → (p.flags t = true ↔ 0 < f.tcp t)

/-- The packet has all that is given and looked at: ports for the four protocols that have them, when they are not 0, and
flags for TCP. Sampling takes one of so many packets. -/
structure Examined (f : FilterInfo) (seen : ℕ) (p : Packet) : Prop extends Agrees P f p where
  destPort : f.usePorts → 0 < f.destPort → p.dport = f.destPort
  srcPort : f.usePorts → 0 < f.srcPort → p.sport = f.srcPort
  flags : f.isTcp → ∀ t, 0 ≤ f.tcp t → (p.flags t = true ↔ 0 < f.tcp t)
  sampling : 1 < f.sampling → (seen + 1 : ℤ) % f.sampling = 0

/-- The flags in the order of the lists, without the first one. -/
def laterFlags : List TcpFlag := [.syn, .rst, .psh, .ack, .urg]

/-- No flag is looked at, or FIN is to be set and no flag that is to be unset comes after another one that is to be set. -/
def FlagsInOrder (f : FilterInfo) : Prop :=
  f.isTcp → f.flagGiven → 0 < f.tcpFin ∧ laterFlags.Pairwise fun t u => 0 < f.tcp t → f.tcp u ≠ 0

instance (f : FilterInfo) : Decidable f.FlagsInOrder := inferInstanceAs (Decidable (_ → _ → _))

end FilterInfo

end OnlDaemons.Swrouter
