import Mathlib
import OnlDaemons.Lib.Lexer
import OnlDaemons.Nmd.VlanSet

/-!
# The text of the switch commands

Three kinds of switches are configured with lines of text. The text for the ports of a VLAN first takes all ports of the
switch out of the VLAN, and then selects those of a list and lets them in. A text for untagged frames selects ports and
sets their VLAN. The kinds differ in how the lines end and how the ports are written: on one of them the ports from 49 on
have two numbers.

## Main definitions

- `setSwitchVlanMembership`, `setSwitchPvids` — the text for a list of ports
- `SwitchState.execute` — what a switch does with a text
- `Says` — a piece of text with its commands

## Main results

- `says_setSwitchVlanMembership`, `says_setSwitchPvids` — the commands of the text
-/

namespace OnlDaemons.Nmd
open OnlDaemons.Lib

/-! ### Writing -/

abbrev Text := List Char

/-- The switches that are not configured over SNMP. -/
inductive Dialect
  | arista
  | arista64
  | cisco
deriving DecidableEq, Repr

/-- `is_arista_switch`, `is_arista64_switch` and `is_cisco_switch` -/
def dialectOf (switchId : String) : Option Dialect :=
  if switchId ∈ ["onlsw7","onlsw8","onlsw9","onlsw10"] then some .arista
  else if switchId ∈ ["onlsw11","onlsw12"] then some .arista64
  else if switchId ∈ ["onlsw1","onlsw2","onlsw3","onlsw4"] then some .cisco
  else none

/-- `switch_info`, with the `int` that the number of ports is kept in. -/
structure SwitchInfo where
  switchId : String
  numPorts : ℕ
  managementPort : ℕ
deriving DecidableEq, Repr

/-- An `int` of an `uint32_t`. -/
def toInt (n : ℕ) : ℤ := if n < 2 ^ 31 then n else n - 2 ^ 32

def getNumPorts (ethSwitches : List SwitchInfo) (switchId : String) : ℕ :=
  ((ethSwitches.find? (·.switchId = switchId)).map SwitchInfo.numPorts).getD 0

def getManagementPort (ethSwitches : List SwitchInfo) (switchId : String) : ℕ :=
  ((ethSwitches.find? (·.switchId = switchId)).map SwitchInfo.managementPort).getD 0

def showNat (n : ℕ) : Text := Nat.toDigits 10 n

def showInt (n : ℤ) : Text := if n < 0 then '-' :: showNat n.natAbs else showNat n.natAbs

/-- The loop of `get_arista64_port`. -/
def arista64Loop (base : ℕ) : ℕ → ℕ × ℕ
  | remainder + 4 => arista64Loop (base + 1) remainder
  | remainder => (base,remainder)

/-- The ports from 49 on have a number of their own for every four of them. -/
def getArista64Port (port : ℤ) : Text :=
  if port < 49 then showInt port
  else
    let (base,remainder) := arista64Loop 49 (port - 49).toNat
    showNat base ++ '/' :: showNat (remainder + 1)

/-- How a port is written in a list. -/
def portText (d : Dialect) (port : ℕ) : Text :=
  match d with
  | .arista => showNat port
  | .arista64 => getArista64Port (toInt port)
  | .cisco => "ethernet 1/".toList ++ showNat port

/-- The loop that writes the ports. There is a comma behind a port if others follow. -/
def portLoop (d : Dialect) : List SwitchPort → Text
  | [] => []
  | port :: ports => portText d port.port ++ ((if 0 < ports.length then [','] else []) ++ portLoop d ports)

/-- What a kind of switch needs around the ports: the range of all ports, the words before a list, the end of the lines
of the first part and of the others, and the command that sets the VLAN of untagged frames. -/
structure CommandStyle where
  range : ℤ → Text
  select : Text
  separator : Text
  stop : Text
  showVlan : ℕ → Text
  pvid : Text

def CommandStyle.of : Dialect → CommandStyle
  | .arista => {
      range n := "interface ethernet 1-".toList ++ showInt n
      select := "interface ethernet ".toList
      separator := "\n".toList
      stop := "\n".toList
      showVlan v := "show vlan ".toList ++ showNat v ++ "\n".toList
      pvid := "switchport trunk native vlan ".toList }
  | .arista64 => {
      range n := "interface ethernet 1-".toList ++ getArista64Port n
      select := "interface ethernet ".toList
      separator := "\n".toList
      stop := "\n".toList
      showVlan _ := []
      pvid := "switchport trunk native vlan ".toList }
  | .cisco => {
      range n := "interface ethernet 1/1-".toList ++ showInt n
      select := "interface ".toList
      separator := " ; ".toList
      stop := " ; \n".toList
      showVlan v := "show vlan id ".toList ++ showNat v ++ " ; \n".toList
      pvid := "switchport access vlan ".toList }

/-- `set_switch_vlan_membership_arista`, `_arista64` and `_cisco`. The first `exit` has the end of the others. -/
def setSwitchVlanMembership (d : Dialect) (numPorts : ℕ) (switchPorts : List SwitchPort) (vlanId : ℕ) : Text :=
  let style := CommandStyle.of d
  if toInt numPorts = 0 then []
  else
    style.range (toInt numPorts) ++ style.separator ++
    ("switchport trunk allowed vlan remove ".toList ++ showNat vlanId ++ style.separator) ++
    ("exit".toList ++ style.stop) ++
    if 0 < switchPorts.length then
      style.select ++ portLoop d switchPorts ++ style.stop ++
      ("switchport trunk allowed vlan add ".toList ++ showNat vlanId ++ style.stop) ++
      style.showVlan vlanId ++
      ("exit".toList ++ style.stop)
    else []

/-- `set_switch_pvids_arista`, `_arista64` and `_cisco` -/
def setSwitchPvidsOf (d : Dialect) (hostPorts : List SwitchPort) (vlanId : ℕ) : Text :=
  let style := CommandStyle.of d
  if hostPorts.length = 0 then []
  else
    style.select ++ portLoop d hostPorts ++ style.stop ++
    (style.pvid ++ showNat vlanId ++ style.stop) ++
    ("exit".toList ++ style.stop)

/-- `set_switch_pvids` -/
def setSwitchPvids (d : Dialect) (managementPort : ℕ) (switchPorts : List SwitchPort) (vlanId : ℕ) : Text :=
  setSwitchPvidsOf d (switchPorts.filter fun p => !p.isInterswitchPort && p.port != managementPort) vlanId

/-- `start_command`, without the call of `ssh` before it. -/
def startCommand : Dialect → Text
  | .arista | .arista64 => "enable\n".toList ++ "configure\n".toList
  | .cisco => "configure ; \n".toList

/-! ### Reading -/

inductive Keyword
  | enable | configure | exit | display | interface | ethernet | switchport | trunk | allowed | native | access | vlan
  | id | add | remove
deriving DecidableEq, Repr

def keywords : List (String × Keyword) :=
  [("enable",.enable),("configure",.configure),("exit",.exit),("show",.display),("interface",.interface),
    ("ethernet",.ethernet),("switchport",.switchport),("trunk",.trunk),("allowed",.allowed),("native",.native),
    ("access",.access),("vlan",.vlan),("id",.id),("add",.add),("remove",.remove)]

inductive Token
  | key (k : Keyword)
  | num (n : ℕ)
  | other (w : Text)
  | comma
  | slash
  | dash
  | stop
deriving DecidableEq, Repr

def wordToken (w : Text) : List Token :=
  if w = [] then []
  else if w.all Char.isDigit then [.num (Nat.ofDigitChars 10 w 0)]
  else match keywords.find? (·.1.toList = w) with
    | some x => [.key x.2]
    | none => [.other w]

/-- The characters that end a word. A command ends with a line or a semicolon. -/
def charSymbol : Char → Option (List Token)
  | ' ' => some []
  | ',' => some [.comma]
  | '/' => some [.slash]
  | '-' => some [.dash]
  | '\n' => some [.stop]
  | ';' => some [.stop]
  | _ => none

def chars : Lexer Char Token where
  symbol := charSymbol
  word := wordToken
  word_nil := rfl

/-- Ranges of ports. -/
abbrev Selection := List (ℕ × ℕ)

def Selection.Has (sel : Selection) (p : ℕ) : Prop := ∃ r ∈ sel, r.1 ≤ p ∧ p ≤ r.2

instance (sel : Selection) (p : ℕ) : Decidable (sel.Has p) := inferInstanceAs (Decidable (∃ r ∈ sel, _))

inductive Command
  | enable
  | configure
  | exit
  | display
  | interface (sel : Selection)
  | allowedAdd (v : ℕ)
  | allowedRemove (v : ℕ)
  | untagged (v : ℕ)
  | invalid
deriving DecidableEq, Repr

/-- The port that a name stands for. -/
def namedPort : Dialect → List Token → Option ℕ
  | .arista,[.num n] => some n
  | .arista64,[.num n] => if n < 49 then some n else none
  | .arista64,[.num n,.slash,.num k] => if 49 ≤ n ∧ 1 ≤ k ∧ k ≤ 4 then some (49 + 4 * (n - 49) + (k - 1)) else none
  | .cisco,[.num 1,.slash,.num n] => some n
  | _,_ => none

/-- The end of a range, which has no module of its own. -/
def lastPort : Dialect → List Token → Option ℕ
  | .cisco,[.num n] => some n
  | .cisco,_ => none
  | d,ts => namedPort d ts

def parseItem (d : Dialect) (ts : List Token) : Option (ℕ × ℕ) :=
  let ts := if ts.head? = some (.key .ethernet) then ts.tail else ts
  match ts.splitOn .dash with
  | [first] => do
    let p ← namedPort d first
    pure (p,p)
  | [first,last] => do
    let p ← namedPort d first
    let q ← lastPort d last
    pure (p,q)
  | _ => none

def parseCommand (d : Dialect) : List Token → Command
  | [.key .enable] => .enable
  | [.key .configure] => .configure
  | [.key .exit] => .exit
  | .key .display :: _ => .display
  | .key .interface :: ts =>
    match (ts.splitOn .comma).mapM (parseItem d) with
    | some sel => .interface sel
    | none => .invalid
  | [.key .switchport,.key .trunk,.key .allowed,.key .vlan,.key .add,.num v] => .allowedAdd v
  | [.key .switchport,.key .trunk,.key .allowed,.key .vlan,.key .remove,.num v] => .allowedRemove v
  | [.key .switchport,.key .trunk,.key .native,.key .vlan,.num v] => .untagged v
  | [.key .switchport,.key .access,.key .vlan,.num v] => .untagged v
  | _ => .invalid

def commands (d : Dialect) : Lexer Token Command where
  symbol t := if t = .stop then some [] else none
  word ts := if ts = [] then [] else [parseCommand d ts]
  word_nil := rfl

/-! ### What a switch does -/

inductive CliMode
  | exec
  | config
  | ports (sel : Selection)
deriving DecidableEq, Repr

/-- `members v p` says that the port `p` is in the VLAN `v`. -/
structure SwitchState where
  members : ℕ → ℕ → Bool
  untagged : ℕ → ℕ
  mode : CliMode

namespace SwitchState

def setMembers (x : SwitchState) (v : ℕ) (f : ℕ → Bool) : SwitchState :=
  { x with members := Function.update x.members v f }

/-- A command that is not valid, or not in the mode that the switch is in, does nothing. -/
def run (x : SwitchState) (c : Command) : SwitchState :=
  match c,x.mode with
  | .configure,.exec => { x with mode := .config }
  | .exit,.ports _ => { x with mode := .config }
  | .exit,.config => { x with mode := .exec }
  | .interface sel,.config => { x with mode := .ports sel }
  | .interface sel,.ports _ => { x with mode := .ports sel }
  | .allowedAdd v,.ports sel => x.setMembers v fun p => x.members v p || decide (sel.Has p)
  | .allowedRemove v,.ports sel => x.setMembers v fun p => x.members v p && !decide (sel.Has p)
  | .untagged v,.ports sel => { x with untagged := fun p => if sel.Has p then v else x.untagged p }
  | _,_ => x

def runText (d : Dialect) (t : Text) (x : SwitchState) : SwitchState := ((commands d).lex (chars.lex t)).foldl run x

/-- The text is sent over a connection of its own. -/
def execute (d : Dialect) (t : Text) (x : SwitchState) : SwitchState := runText d t { x with mode := .exec }

end SwitchState

/-! ### The text is read as it is meant -/

section Reading

variable {d : Dialect}

theorem charSymbol_of_isDigit {c : Char} (h : c.isDigit) : charSymbol c = none := by
  unfold charSymbol
  split <;> first | rfl | (exact absurd h (by decide))

theorem open_showNat (n : ℕ) : chars.Open (showNat n) [.num n] := by
  have hdigits : ∀ c ∈ showNat n, c.isDigit := fun c hc => Nat.isDigit_of_mem_toDigits (by decide) (by decide) hc
  have hword : wordToken (showNat n) = [.num n] := by
    have hne : showNat n ≠ [] := Nat.toDigits_ne_nil
    rw [wordToken,if_neg hne,if_pos (List.all_eq_true.2 hdigits)]
    exact congrArg (fun k => [Token.num k]) Nat.ofDigitChars_ten_toDigits
  rw [← hword]
  exact Lexer.open_word fun c hc => charSymbol_of_isDigit (hdigits c hc)

theorem toInt_of_lt {n : ℕ} (h : n < 2 ^ 31) : toInt n = n := if_pos h

theorem showInt_natCast (n : ℕ) : showInt n = showNat n := by
  rw [showInt,if_neg (by omega),Int.natAbs_natCast]

theorem arista64Loop_eq (base remainder : ℕ) : arista64Loop base remainder = (base + remainder / 4,remainder % 4) := by
  fun_induction arista64Loop base remainder with
  | case1 base remainder ih =>
    rw [ih]
    apply Prod.ext
    · show base + 1 + remainder / 4 = base + (remainder + 4) / 4
      omega
    · show remainder % 4 = (remainder + 4) % 4
      omega
  | case2 base remainder h =>
    have hlt : remainder < 4 := by
      by_contra hge
      exact h (remainder - 4) (by omega)
    apply Prod.ext
    · show base = base + remainder / 4
      omega
    · show remainder = remainder % 4
      omega

/-- The tokens of a port in a list. -/
def portTokens (d : Dialect) (port : ℕ) : List Token :=
  match d with
  | .arista => [.num port]
  | .arista64 => if port < 49 then [.num port] else [.num (49 + (port - 49) / 4),.slash,.num ((port - 49) % 4 + 1)]
  | .cisco => [.key .ethernet,.num 1,.slash,.num port]

theorem open_getArista64Port (port : ℕ) : chars.Open (getArista64Port port) (portTokens .arista64 port) := by
  simp only [getArista64Port,portTokens]
  by_cases h : port < 49
  · rw [if_pos (by omega),if_pos h,showInt_natCast]
    exact open_showNat port
  · have hsub : ((port : ℤ) - 49).toNat = port - 49 := by omega
    rw [if_neg (by omega),if_neg h,hsub,arista64Loop_eq]
    have hslash : chars.Closed ['/'] [.slash] := Lexer.closed_symbol rfl
    exact (open_showNat _).openAppend ⟨_,_,rfl,rfl⟩ (hslash.openAppend (open_showNat _))

/-- A number that is made an `int` fits into one. -/
def Writable (d : Dialect) (port : ℕ) : Prop := d = .arista64 → port < 2 ^ 31

instance (d : Dialect) (port : ℕ) : Decidable (Writable d port) := inferInstanceAs (Decidable (_ → _))

theorem open_portText {port : ℕ} (h : Writable d port) : chars.Open (portText d port) (portTokens d port) := by
  cases d with
  | arista => exact open_showNat port
  | arista64 =>
    show chars.Open (getArista64Port (toInt port)) _
    rw [toInt_of_lt (h rfl)]
    exact open_getArista64Port port
  | cisco =>
    have hclosed : chars.Closed "ethernet 1/".toList [.key .ethernet,.num 1,.slash] := fun _ => rfl
    exact hclosed.openAppend (open_showNat port)

def listTokens (d : Dialect) (ports : List SwitchPort) : List Token :=
  [Token.comma].intercalate (ports.map fun p => portTokens d p.port)

theorem open_portLoop {ports : List SwitchPort} (hne : ports ≠ []) (h : ∀ p ∈ ports, Writable d p.port) :
    chars.Open (portLoop d ports) (listTokens d ports) := by
  induction ports with
  | nil => exact absurd rfl hne
  | cons p ports ih =>
    have hp := open_portText (d := d) (h p List.mem_cons_self)
    cases ports with
    | nil =>
      have hloop : portLoop d [p] = portText d p.port := List.append_nil _
      have htokens : listTokens d [p] = portTokens d p.port := by simp [listTokens]
      rw [hloop,htokens]
      exact hp
    | cons q ports =>
      have hrest := ih (List.cons_ne_nil _ _) fun x hx => h x (List.mem_cons_of_mem _ hx)
      have htokens : listTokens d (p :: q :: ports) =
          portTokens d p.port ++ ([.comma] ++ listTokens d (q :: ports)) := by
        simp [listTokens,List.intercalate]
      have hcomma : chars.Closed [','] [.comma] := Lexer.closed_symbol rfl
      rw [htokens]
      exact hp.openAppend ⟨_,_,rfl,rfl⟩ (hcomma.openAppend hrest)

/-- The text has these commands, whatever follows it. -/
def Says (d : Dialect) (t : Text) (cs : List Command) : Prop :=
  ∃ ts, chars.Closed t ts ∧ (commands d).Closed ts cs

theorem says_nil : Says d [] [] := ⟨[],Lexer.closed_nil,Lexer.closed_nil⟩

theorem Says.append {t u : Text} {cs ds : List Command} (ht : Says d t cs) (hu : Says d u ds) :
    Says d (t ++ u) (cs ++ ds) := by
  obtain ⟨ts,hts,hcs⟩ := ht
  obtain ⟨us,hus,hds⟩ := hu
  exact ⟨ts ++ us,hts.append hus,hcs.append hds⟩

/-- The end of a command, which may be empty lines too. -/
def Stop (t : Text) : Prop := chars.Starts t ∧ ∃ n, chars.Closed t (List.replicate (n + 1) .stop)

theorem closed_stops (n : ℕ) : (commands d).Closed (List.replicate n .stop) [] := by
  induction n with
  | zero => exact Lexer.closed_nil
  | succ n ih =>
    have hstop : (commands d).Closed [Token.stop] [] := Lexer.closed_symbol rfl
    exact hstop.append ih

theorem says_command {body sep : Text} {ts : List Token} (hbody : chars.Open body ts) (hsep : Stop sep)
    (hne : ts ≠ []) (hstop : .stop ∉ ts) : Says d (body ++ sep) [parseCommand d ts] := by
  obtain ⟨hstarts,n,hclosed⟩ := hsep
  refine ⟨ts ++ List.replicate (n + 1) .stop,hbody.append hstarts hclosed,?_⟩
  have hword : (commands d).word ts = [parseCommand d ts] := if_neg hne
  have hopen : (commands d).Open ts [parseCommand d ts] := by
    rw [← hword]
    refine Lexer.open_word fun t ht => if_neg ?_
    rintro rfl
    exact hstop ht
  exact hopen.append ⟨_,_,List.replicate_succ,rfl⟩ (closed_stops _)

/-- A command that ends with a number. -/
theorem says_number {pre sep : Text} {ts : List Token} (n : ℕ) (hpre : chars.Closed pre ts) (hsep : Stop sep)
    (hstop : .stop ∉ ts) : Says d (pre ++ showNat n ++ sep) [parseCommand d (ts ++ [.num n])] :=
  says_command (hpre.openAppend (open_showNat n)) hsep (by simp) (by simp [hstop])

theorem stop_separator (d : Dialect) : Stop (CommandStyle.of d).separator := by
  cases d with
  | arista => exact ⟨⟨_,_,rfl,rfl⟩,0,fun _ => rfl⟩
  | arista64 => exact ⟨⟨_,_,rfl,rfl⟩,0,fun _ => rfl⟩
  | cisco => exact ⟨⟨_,_,rfl,rfl⟩,0,fun _ => rfl⟩

theorem stop_stop (d : Dialect) : Stop (CommandStyle.of d).stop := by
  cases d with
  | arista => exact ⟨⟨_,_,rfl,rfl⟩,0,fun _ => rfl⟩
  | arista64 => exact ⟨⟨_,_,rfl,rfl⟩,0,fun _ => rfl⟩
  | cisco => exact ⟨⟨_,_,rfl,rfl⟩,1,fun _ => rfl⟩

theorem says_exit {sep : Text} (hsep : Stop sep) : Says d ("exit".toList ++ sep) [.exit] := by
  have hopen : chars.Open "exit".toList [.key .exit] := Lexer.open_of_all (by decide)
  exact says_command hopen hsep (by simp) (by simp)

theorem says_remove (v : ℕ) {sep : Text} (hsep : Stop sep) :
    Says d ("switchport trunk allowed vlan remove ".toList ++ showNat v ++ sep) [.allowedRemove v] := by
  have hpre : chars.Closed "switchport trunk allowed vlan remove ".toList
      [.key .switchport,.key .trunk,.key .allowed,.key .vlan,.key .remove] := fun _ => rfl
  exact says_number v hpre hsep (by simp)

theorem says_add (v : ℕ) {sep : Text} (hsep : Stop sep) :
    Says d ("switchport trunk allowed vlan add ".toList ++ showNat v ++ sep) [.allowedAdd v] := by
  have hpre : chars.Closed "switchport trunk allowed vlan add ".toList
      [.key .switchport,.key .trunk,.key .allowed,.key .vlan,.key .add] := fun _ => rfl
  exact says_number v hpre hsep (by simp)

theorem says_pvid (d : Dialect) (v : ℕ) {sep : Text} (hsep : Stop sep) :
    Says d ((CommandStyle.of d).pvid ++ showNat v ++ sep) [.untagged v] := by
  have hnative : chars.Closed "switchport trunk native vlan ".toList
      [.key .switchport,.key .trunk,.key .native,.key .vlan] := fun _ => rfl
  have haccess : chars.Closed "switchport access vlan ".toList
      [.key .switchport,.key .access,.key .vlan] := fun _ => rfl
  cases d with
  | arista => exact says_number v hnative hsep (by simp)
  | arista64 => exact says_number v hnative hsep (by simp)
  | cisco => exact says_number v haccess hsep (by simp)

/-- What `show vlan` does, where it is used. -/
def showCommands : Dialect → List Command
  | .arista64 => []
  | _ => [.display]

theorem says_showVlan (d : Dialect) (v : ℕ) : Says d ((CommandStyle.of d).showVlan v) (showCommands d) := by
  cases d with
  | arista =>
    have hpre : chars.Closed "show vlan ".toList [.key .display,.key .vlan] := fun _ => rfl
    exact says_number v hpre (stop_stop .arista) (by simp)
  | arista64 => exact says_nil
  | cisco =>
    have hpre : chars.Closed "show vlan id ".toList [.key .display,.key .vlan,.key .id] := fun _ => rfl
    exact says_number v hpre (stop_stop .cisco) (by simp)

/-! ### The selections -/

theorem namedPort_portTokens (d : Dialect) (p : ℕ) (hd : d ≠ .cisco) : namedPort d (portTokens d p) = some p := by
  cases d with
  | arista => rfl
  | arista64 =>
    simp only [portTokens]
    split
    case isTrue h => exact if_pos h
    case isFalse h =>
      have hvalid : 49 ≤ 49 + (p - 49) / 4 ∧ 1 ≤ (p - 49) % 4 + 1 ∧ (p - 49) % 4 + 1 ≤ 4 := by omega
      rw [namedPort,if_pos hvalid]
      exact congrArg some (by omega)
  | cisco => exact absurd rfl hd

theorem splitOn_of_not_mem {t : Token} {ts : List Token} (h : t ∉ ts) : ts.splitOn t = [ts] := by
  have hjoined : ([t].intercalate [ts]).splitOn t = [ts] := List.splitOn_intercalate _ (by simpa using h) (by simp)
  simpa using hjoined

/-- A port is one item of a list, and one end of a range. -/
theorem not_mem_portTokens (d : Dialect) (p : ℕ) :
    .comma ∉ portTokens d p ∧ .dash ∉ portTokens d p ∧ .stop ∉ portTokens d p := by
  cases d with
  | arista => simp [portTokens]
  | arista64 =>
    simp only [portTokens]
    split <;> simp
  | cisco => simp [portTokens]

/-- The keyword before the first port of a list, where the ports do not have one each. -/
def listKeyword : Dialect → List Token
  | .cisco => []
  | _ => [.key .ethernet]

/-- A port alone, behind the keyword or not. -/
theorem parseItem_single {d : Dialect} {ts : List Token} {p : ℕ} (hp : namedPort d ts = some p) (hdash : .dash ∉ ts)
    (hkey : ts.head? ≠ some (.key .ethernet)) :
    parseItem d ts = some (p,p) ∧ parseItem d (.key .ethernet :: ts) = some (p,p) := by
  have hread : (match ts.splitOn .dash with
      | [first] => do
        let p ← namedPort d first
        pure (p,p)
      | [first,last] => do
        let p ← namedPort d first
        let q ← lastPort d last
        pure (p,q)
      | _ => none) = some (p,p) := by
    rw [splitOn_of_not_mem hdash]
    simp [hp]
  constructor
  · rw [parseItem,if_neg hkey]
    exact hread
  · rw [parseItem,List.head?_cons,if_pos rfl]
    exact hread

theorem parseItem_portTokens (d : Dialect) (p : ℕ) :
    parseItem d (portTokens d p) = some (p,p) ∧ parseItem d (listKeyword d ++ portTokens d p) = some (p,p) := by
  cases d with
  | arista => exact parseItem_single rfl (not_mem_portTokens .arista p).2.1 (by simp [portTokens])
  | arista64 =>
    refine parseItem_single (namedPort_portTokens .arista64 p (by simp)) (not_mem_portTokens .arista64 p).2.1 ?_
    simp only [portTokens]
    split <;> simp
  | cisco =>
    have hname : namedPort .cisco [.num 1,.slash,.num p] = some p := rfl
    have hitem := (parseItem_single hname (by simp) (by simp)).2
    exact ⟨hitem,hitem⟩

theorem parse_list (d : Dialect) {ports : List SwitchPort} (hne : ports ≠ []) :
    parseCommand d (.key .interface :: (listKeyword d ++ listTokens d ports)) =
      .interface (ports.map fun p => (p.port,p.port)) := by
  cases ports with
  | nil => exact absurd rfl hne
  | cons p ports =>
    have hlist : listKeyword d ++ listTokens d (p :: ports) =
        [Token.comma].intercalate ((listKeyword d ++ portTokens d p.port) :: ports.map fun q => portTokens d q.port) := by
      cases ports <;> simp [listTokens,List.intercalate]
    have hcomma : ∀ l ∈ (listKeyword d ++ portTokens d p.port) :: ports.map (fun q => portTokens d q.port),
        Token.comma ∉ l := by
      intro l hl
      rcases List.mem_cons.1 hl with rfl | hl
      · have hport := (not_mem_portTokens d p.port).1
        cases d <;> simpa [listKeyword] using hport
      · obtain ⟨q,-,rfl⟩ := List.mem_map.1 hl
        exact (not_mem_portTokens d q.port).1
    have hitems : ((listKeyword d ++ portTokens d p.port) :: ports.map fun q => portTokens d q.port).mapM (parseItem d) =
        some ((p :: ports).map fun q => (q.port,q.port)) := by
      have hitem : (parseItem d ∘ fun q : SwitchPort => portTokens d q.port) = fun q => pure (q.port,q.port) := by
        funext q
        exact (parseItem_portTokens d q.port).1
      rw [List.mapM_cons,(parseItem_portTokens d p.port).2,List.mapM_map,hitem,List.mapM_pure]
      rfl
    show (match ((listKeyword d ++ listTokens d (p :: ports)).splitOn .comma).mapM (parseItem d) with
      | some sel => Command.interface sel
      | none => .invalid) = _
    rw [hlist,List.splitOn_intercalate _ hcomma (List.cons_ne_nil _ _),hitems]

theorem stop_not_mem_listTokens (d : Dialect) (ports : List SwitchPort) : .stop ∉ listTokens d ports := by
  induction ports with
  | nil => simp [listTokens]
  | cons p ports ih =>
    have hp := (not_mem_portTokens d p.port).2.2
    cases ports with
    | nil => simpa [listTokens] using hp
    | cons q ports =>
      have htokens : listTokens d (p :: q :: ports) =
          portTokens d p.port ++ ([.comma] ++ listTokens d (q :: ports)) := by
        simp [listTokens,List.intercalate]
      simp [htokens,hp,ih]

/-- The selection of a list. -/
theorem says_select (d : Dialect) {ports : List SwitchPort} (hne : ports ≠ []) (h : ∀ p ∈ ports, Writable d p.port) :
    Says d ((CommandStyle.of d).select ++ portLoop d ports ++ (CommandStyle.of d).stop)
      [.interface (ports.map fun p => (p.port,p.port))] := by
  have hselect : chars.Closed (CommandStyle.of d).select (.key .interface :: listKeyword d) := by
    cases d with
    | arista => exact fun _ => rfl
    | arista64 => exact fun _ => rfl
    | cisco => exact fun _ => rfl
  have hstop : .stop ∉ .key .interface :: listKeyword d ++ listTokens d ports := by
    have hkeyword : Token.stop ∉ listKeyword d := by cases d <;> simp [listKeyword]
    have hlist := stop_not_mem_listTokens d ports
    simp [hkeyword,hlist]
  rw [← parse_list d hne,← List.cons_append]
  exact says_command (hselect.openAppend (open_portLoop hne h)) (stop_stop d) (by simp) hstop

/-- The selection of all ports. -/
theorem says_range (d : Dialect) {n : ℕ} (h : n < 2 ^ 31) :
    Says d ((CommandStyle.of d).range (toInt n) ++ (CommandStyle.of d).separator) [.interface [(1,n)]] := by
  rw [toInt_of_lt h]
  cases d with
  | arista =>
    have hpre : chars.Closed "interface ethernet 1-".toList [.key .interface,.key .ethernet,.num 1,.dash] := fun _ => rfl
    have hcommand := says_number (d := .arista) n hpre (stop_separator .arista) (by simp)
    rw [← showInt_natCast] at hcommand
    exact hcommand
  | arista64 =>
    have hpre : chars.Closed "interface ethernet 1-".toList [.key .interface,.key .ethernet,.num 1,.dash] := fun _ => rfl
    obtain ⟨hcomma,hdash,hstop⟩ := not_mem_portTokens .arista64 n
    have hcommand := says_command (d := .arista64) (hpre.openAppend (open_getArista64Port n)) (stop_separator .arista64)
      (by simp) (by simp [hstop])
    have hparse : parseCommand .arista64
        ([.key .interface,.key .ethernet,.num 1,.dash] ++ portTokens .arista64 n) = .interface [(1,n)] := by
      have hjoined : ([Token.dash].intercalate [[.num 1],portTokens .arista64 n]).splitOn .dash =
          [[.num 1],portTokens .arista64 n] := List.splitOn_intercalate _ (by simp [hdash]) (by simp)
      have hends : (Token.num 1 :: .dash :: portTokens .arista64 n).splitOn .dash =
          [[.num 1],portTokens .arista64 n] := by
        simpa [List.intercalate] using hjoined
      have hitem : parseItem .arista64 (.key .ethernet :: .num 1 :: .dash :: portTokens .arista64 n) = some (1,n) := by
        have hfirst : namedPort .arista64 [.num 1] = some 1 := rfl
        have hlast : lastPort .arista64 (portTokens .arista64 n) = some n := namedPort_portTokens .arista64 n (by simp)
        rw [parseItem,List.head?_cons,if_pos rfl,List.tail_cons,hends]
        simp [hfirst,hlast]
      show (match ((Token.key .ethernet :: .num 1 :: .dash :: portTokens .arista64 n).splitOn .comma).mapM
          (parseItem .arista64) with
        | some sel => Command.interface sel
        | none => .invalid) = _
      rw [splitOn_of_not_mem (by simp [hcomma]),List.mapM_cons,hitem]
      rfl
    rw [← hparse]
    exact hcommand
  | cisco =>
    have hpre : chars.Closed "interface ethernet 1/1-".toList
        [.key .interface,.key .ethernet,.num 1,.slash,.num 1,.dash] := fun _ => rfl
    have hcommand := says_number (d := .cisco) n hpre (stop_separator .cisco) (by simp)
    rw [← showInt_natCast] at hcommand
    exact hcommand

/-! ### The commands of a text -/

def select (ports : List SwitchPort) : Command := .interface (ports.map fun p => (p.port,p.port))

def membershipCommands (d : Dialect) (numPorts : ℕ) (ports : List SwitchPort) (v : ℕ) : List Command :=
  if numPorts = 0 then []
  else [.interface [(1,numPorts)]] ++ [.allowedRemove v] ++ [.exit] ++
    if 0 < ports.length then [select ports] ++ [.allowedAdd v] ++ showCommands d ++ [.exit] else []

def pvidCommands (ports : List SwitchPort) (v : ℕ) : List Command :=
  if ports.length = 0 then [] else [select ports] ++ [.untagged v] ++ [.exit]

theorem says_setSwitchVlanMembership (d : Dialect) {numPorts : ℕ} {ports : List SwitchPort} (v : ℕ)
    (hn : numPorts < 2 ^ 31) (h : ∀ p ∈ ports, Writable d p.port) :
    Says d (setSwitchVlanMembership d numPorts ports v) (membershipCommands d numPorts ports v) := by
  rw [setSwitchVlanMembership,membershipCommands]
  have hzero : toInt numPorts = 0 ↔ numPorts = 0 := by
    rw [toInt_of_lt hn]
    omega
  by_cases h0 : numPorts = 0
  · rw [if_pos (hzero.2 h0),if_pos h0]
    exact says_nil
  · rw [if_neg (mt hzero.1 h0),if_neg h0]
    refine (((says_range d hn).append (says_remove v (stop_separator d))).append (says_exit (stop_stop d))).append ?_
    split
    case isTrue hlen =>
      have hne : ports ≠ [] := List.ne_nil_of_length_pos hlen
      exact (((says_select d hne h).append (says_add v (stop_stop d))).append (says_showVlan d v)).append
        (says_exit (stop_stop d))
    case isFalse => exact says_nil

theorem says_setSwitchPvidsOf (d : Dialect) {ports : List SwitchPort} (v : ℕ) (h : ∀ p ∈ ports, Writable d p.port) :
    Says d (setSwitchPvidsOf d ports v) (pvidCommands ports v) := by
  rw [setSwitchPvidsOf,pvidCommands]
  split
  case isTrue => exact says_nil
  case isFalse hlen =>
    have hne : ports ≠ [] := fun hnil => hlen (by simp [hnil])
    exact ((says_select d hne h).append (says_pvid d v (stop_stop d))).append (says_exit (stop_stop d))

theorem says_startCommand (d : Dialect) :
    Says d (startCommand d) ((if d = .cisco then [] else [.enable]) ++ [.configure]) := by
  have hopen : chars.Open "enable".toList [.key .enable] := Lexer.open_of_all (by decide)
  have henable : Says d ("enable".toList ++ "\n".toList) [.enable] :=
    says_command hopen (stop_stop .arista) (by simp) (by simp)
  have hconfigure : chars.Open "configure".toList [.key .configure] := Lexer.open_of_all (by decide)
  cases d with
  | arista => exact henable.append (says_command hconfigure (stop_stop .arista) (by simp) (by simp))
  | arista64 => exact henable.append (says_command hconfigure (stop_stop .arista) (by simp) (by simp))
  | cisco => exact says_command hconfigure (stop_stop .cisco) (by simp) (by simp)

end Reading

end OnlDaemons.Nmd
