import Mathlib.Data.Nat.Digits.Lemmas
import OnlDaemons.Swrouter.ConfigurePort
import OnlDaemons.Swrouter.FilterMeaning

/-!
# The handles of the queues

The software router makes a queue with two commands of `tc`, which it gives the port and the queue in decimal, and `tc`
reads them as hexadecimal numbers. The statistics are asked for with numbers. There the code adds 6 to those from 10 on,
which is what the reading makes of 10 to 19 only.

## Main definitions

- `QueueTables.addQueue`, `QueueTables.readStats`, `QueueTables.readStatsClass` — the commands, and what is looked up
- `Tc.read` — how a command is read
- `asHex` — what becomes of a decimal number

## Main results

- `Tc.read_classCommand` — the handle of a queue
- `QueueTables.handles_agree_iff` — the lookups of a queue, and that no two queues share a handle
-/

namespace OnlDaemons.Swrouter
open OnlDaemons.Lib

/-! ### What the router writes -/

/-- `delay_index`. -/
def delayIndex : ℕ := maxPort + 2

/-- The parameters of a queue. The rates are in kbit/s; 0 stands for one that is not given. -/
structure QueueInfo where
  port : ℕ
  qid : ℕ
  rate : ℕ
  burst : ℕ := 0
  ceilRate : ℕ := 0
  cburst : ℕ := 0
  mtu : ℕ := 0
deriving DecidableEq, Repr

/-- What the commands and the lookups need of the tables; there is no port beyond the table. -/
structure QueueTables where
  virtualPorts : Bool
  portTable : ℕ → PortInfo
  inTable : ∀ p, (portTable p).configured → p < maxPort

namespace QueueTables

/-- The device of a port. -/
def nic (s : QueueTables) (port : ℕ) : Text :=
  let nic := "data".toList ++ showNat (s.portTable port).nicIndex
  if s.virtualPorts then nic ++ ".".toList ++ showNat (s.portTable port).vlan else nic

/-- What follows `htb rate` in the first command. -/
def rates (q : QueueInfo) : Text :=
  (if q.rate = 0 ∧ q.ceilRate > 0 then showNat q.ceilRate else showNat q.rate) ++ "kbit ceil ".toList ++
  (if q.ceilRate > 0 then showNat q.ceilRate else showNat q.rate) ++ "kbit".toList ++
  (if q.burst > 0 then " burst ".toList ++ showNat q.burst else []) ++
  (if q.cburst > 0 then " cburst ".toList ++ showNat q.cburst else []) ++ " prio 2".toList ++
  (if q.mtu > 0 then " mtu ".toList ++ showNat q.mtu else " mtu 1500".toList)

def classCommand (s : QueueTables) (cmdType : String) (q : QueueInfo) : Text :=
  let p1 := q.port + 1
  "tc class ".toList ++ cmdType.toList ++ " dev ".toList ++ s.nic q.port ++ " parent ".toList ++ showNat p1 ++
    ":0 classid ".toList ++ showNat p1 ++ ":".toList ++ showNat q.qid ++ " htb rate ".toList ++ rates q

def qdiscCommand (s : QueueTables) (cmdType : String) (q : QueueInfo) : Text :=
  let p1 := q.port + 1
  let newqHandle := q.qid + delayIndex
  "tc qdisc ".toList ++ cmdType.toList ++ " dev ".toList ++ s.nic q.port ++ " parent ".toList ++ showNat p1 ++
    ":".toList ++ showNat q.qid ++ " handle ".toList ++ showNat newqHandle ++ ":0 netem delay 0ms".toList

/-- The commands that are given to `system_cmd`, where `run` says which of them succeed, and how the call ends. -/
def addQueue (s : QueueTables) (run : Text → Bool) (q : QueueInfo) (change : Bool) : List Text × Except String Unit :=
  let cmdType := if change then "change" else "add"
  let first := s.classCommand cmdType q
  let second := s.qdiscCommand cmdType q
  if !(s.portTable q.port).configured then ([], .error "port not configured")
  else if !run first then ([first], .error ("tc class " ++ cmdType ++ " failed"))
  else if change then ([first], .ok ())
  else if !run second then ([first, second], .error ("tc qdisc " ++ cmdType ++ " failed"))
  else ([first, second], .ok ())

/-! ### What the router looks up -/

/-- `TC_HANDLE`. -/
def tcHandle (maj min : ℕ) : ℕ := maj % 2 ^ 16 * 2 ^ 16 + min % 2 ^ 16

/-- A qdisc is asked for with its handle or with that of the class it is on. -/
inductive Lookup
  | qdisc (handle : ℕ)
  | qdiscOf (parent : ℕ)
  | tcClass (handle : ℕ)
deriving DecidableEq, Repr

/-- The handle with the two corrections. -/
def classHandle (port qid : ℕ) : ℕ :=
  let tmpQ := if qid > 9 then qid + 6 else qid
  let tmpP := if port > 8 then port + 7 else port + 1
  tcHandle tmpP tmpQ

/-- The device and what is looked up on it. -/
def readStats (s : QueueTables) (port qid : ℕ) : Option (Text × Lookup) :=
  if !(s.portTable port).configured then none
  else if qid = 0 then some (s.nic port, .qdisc (tcHandle (port + 1) 0))
  else some (s.nic port, .qdiscOf (classHandle port qid))

def readStatsClass (s : QueueTables) (port qid : ℕ) : Option (Text × Lookup) :=
  if !(s.portTable port).configured then none else some (s.nic port, .tcClass (classHandle port qid))

def Lookup.handle : Lookup → ℕ
  | .qdisc h => h
  | .qdiscOf h => h
  | .tcClass h => h

end QueueTables

/-! ### How tc reads a command -/

namespace Tc

def hexDigit (c : Char) : Option ℕ :=
  if c.isDigit then some (c.toNat - '0'.toNat)
  else if 'a' ≤ c ∧ c ≤ 'f' then some (c.toNat - 'a'.toNat + 10)
  else if 'A' ≤ c ∧ c ≤ 'F' then some (c.toNat - 'A'.toNat + 10)
  else none

def readHex (w : Text) : Option ℕ :=
  if w = [] then none else w.foldlM (fun n c => (hexDigit c).map (16 * n + ·)) 0

/-- Half of a handle. -/
def readHalf (w : Text) : Option ℕ := (readHex w).filter (· < 2 ^ 16)

/-- The handle of a class. -/
def readClassid (w : Text) : Option ℕ :=
  match w.splitOn ':' with
  | [a, b] => do
    let maj ← readHalf a
    let min ← readHalf b
    some (maj * 2 ^ 16 + min)
  | _ => none

/-- The handle of a qdisc; what comes after the colon is not read. -/
def readHandle (w : Text) : Option ℕ := (readHalf (w.takeWhile (· ≠ ':'))).map (· * 2 ^ 16)

/-- What a class or a qdisc is given before the word for its kind. -/
structure Args where
  dev : Option Text := none
  parent : Option ℕ := none
  handle : Option ℕ := none
deriving DecidableEq, Repr

/-- `own` is the option for the handle. The words from the kind on are not read here. -/
def readArgs (own : String) (readOwn : Text → Option ℕ) : List Text → Args → Option Args
  | w :: v :: ws, a =>
    if w = "dev".toList then readArgs own readOwn ws { a with dev := some v }
    else if w = "parent".toList then
      match readClassid v with
      | some h => readArgs own readOwn ws { a with parent := some h }
      | none => none
    else if w = own.toList then
      match readOwn v with
      | some h => readArgs own readOwn ws { a with handle := some h }
      | none => none
    else some a
  | _, a => some a

structure Command where
  object : Text
  action : Text
  args : Args
deriving DecidableEq, Repr

def read (t : Text) : Option Command :=
  match wordsAt ' ' t with
  | name :: object :: action :: ws =>
    if name = "tc".toList then
      if object = "class".toList then
        (readArgs "classid" readClassid ws {}).map fun args => { object, action, args }
      else if object = "qdisc".toList then
        (readArgs "handle" readHandle ws {}).map fun args => { object, action, args }
      else none
    else none
  | _ => none

end Tc

/-! ### Decimal numbers as hexadecimal ones -/

/-- The number that the decimal digits of a number are in hexadecimal. -/
def asHex (n : ℕ) : ℕ := Nat.ofDigits 16 (Nat.digits 10 n)

theorem asHex_of_lt {n : ℕ} (h : n < 10) : asHex n = n := by
  by_cases hn : n = 0
  · subst hn
    rfl
  · rw [asHex, Nat.digits_of_lt 10 n hn h, Nat.ofDigits_singleton]

theorem asHex_eq (n : ℕ) : asHex n = 16 * asHex (n / 10) + n % 10 := by
  by_cases hn : n = 0
  · subst hn
    rfl
  · rw [asHex, Nat.digits_def' (by decide) (Nat.pos_of_ne_zero hn), Nat.ofDigits_cons, asHex, Nat.add_comm]

/-- The digits are the same, and both numbers are made of them. -/
theorem asHex_injective : Function.Injective asHex := by
  have hdigits : ∀ n, Nat.digits 16 (asHex n) = Nat.digits 10 n := by
    intro n
    apply Nat.digits_ofDigits 16 (by decide)
    · intro d hd
      have hlt := Nat.digits_lt_base (by decide) hd
      omega
    · intro hne
      exact Nat.getLast_digit_ne_zero 10 (Nat.digits_ne_nil_iff_ne_zero.mp hne)
  intro n m h
  apply Nat.digits_inj_iff.mp
  rw [← hdigits n, ← hdigits m, h]

theorem le_asHex (n : ℕ) : n ≤ asHex n := by
  induction n using Nat.strong_induction_on with
  | _ n ih =>
    rw [asHex_eq]
    by_cases hn : n = 0
    · omega
    · have hdiv := ih (n / 10) (by omega)
      omega

/-- Six are added for every ten at least. -/
theorem add_le_asHex (n : ℕ) : n + 6 * (n / 10) ≤ asHex n := by
  have h := le_asHex (n / 10)
  rw [asHex_eq]
  omega

/-- The correction is right up to 19. -/
theorem asHex_eq_corrected_iff (n : ℕ) : asHex n = (if n > 9 then n + 6 else n) ↔ n ≤ 19 := by
  constructor
  · intro h
    have hle := add_le_asHex n
    split at h <;> omega
  · intro h
    by_cases hn : n > 9
    · have hten : asHex (n / 10) = n / 10 := asHex_of_lt (by omega)
      rw [if_pos hn, asHex_eq, hten]
      omega
    · rw [if_neg hn, asHex_of_lt (by omega)]

namespace Tc

theorem hexDigit_digitChar {d : ℕ} (h : d < 10) : hexDigit d.digitChar = some d := by
  interval_cases d <;> rfl

theorem readHex_showNat (n : ℕ) : readHex (showNat n) = some (asHex n) := by
  have hfold : ∀ n, (showNat n).foldlM (fun n c => (hexDigit c).map (16 * n + ·)) 0 = some (asHex n) := by
    intro n
    induction n using Nat.strong_induction_on with
    | _ n ih =>
      rw [showNat, Nat.toDigits_eq_if (by decide)]
      by_cases hn : n < 10
      · rw [if_pos hn, List.foldlM_cons, hexDigit_digitChar hn, asHex_of_lt hn]
        simp
      · have hdiv := ih (n / 10) (by omega)
        rw [if_neg hn, List.foldlM_append, ← showNat, hdiv, asHex_eq n]
        simp [hexDigit_digitChar (Nat.mod_lt n (by decide))]
  rw [readHex, if_neg (by exact Nat.toDigits_ne_nil), hfold]

theorem readHalf_showNat (n : ℕ) : readHalf (showNat n) = if asHex n < 2 ^ 16 then some (asHex n) else none := by
  rw [readHalf, readHex_showNat]
  simp [Option.filter]

theorem readClassid_showNat (n m : ℕ) : readClassid (showNat n ++ ":".toList ++ showNat m) =
    if asHex n < 2 ^ 16 ∧ asHex m < 2 ^ 16 then some (asHex n * 2 ^ 16 + asHex m) else none := by
  have hsplit : (showNat n ++ ":".toList ++ showNat m).splitOn ':' = [showNat n, showNat m] := by
    have hcons : showNat n ++ ":".toList ++ showNat m = showNat n ++ ':' :: showNat m := by simp
    rw [hcons, List.splitOn_append_cons_self_of_not_mem (not_mem_showNat (by decide)),
      List.splitOn_eq_singleton (not_mem_showNat (by decide))]
  rw [readClassid, hsplit]
  simp only [readHalf_showNat]
  by_cases hn : asHex n < 2 ^ 16
  · by_cases hm : asHex m < 2 ^ 16
    · rw [if_pos hn, if_pos hm, if_pos ⟨hn, hm⟩]
      rfl
    · have hboth : ¬(asHex n < 2 ^ 16 ∧ asHex m < 2 ^ 16) := fun h => hm h.2
      rw [if_pos hn, if_neg hm, if_neg hboth]
      rfl
  · have hboth : ¬(asHex n < 2 ^ 16 ∧ asHex m < 2 ^ 16) := fun h => hn h.1
    rw [if_neg hn, if_neg hboth]
    rfl

/-- The words of the first command of a queue up to the kind. -/
def classWords (s : QueueTables) (cmdType : String) (q : QueueInfo) : List Text :=
  ["class".toList, cmdType.toList, "dev".toList, s.nic q.port, "parent".toList,
    showNat (q.port + 1) ++ ":".toList ++ showNat 0, "classid".toList,
    showNat (q.port + 1) ++ ":".toList ++ showNat q.qid, "htb".toList]

theorem classText_eq (cmdType nic p1 qid rates : Text) :
    "tc class ".toList ++ cmdType ++ " dev ".toList ++ nic ++ " parent ".toList ++ p1 ++ ":0 classid ".toList ++ p1 ++
        ":".toList ++ qid ++ " htb rate ".toList ++ rates =
      "tc".toList ++ spaced ' ' ["class".toList, cmdType, "dev".toList, nic, "parent".toList,
        p1 ++ ":".toList ++ "0".toList, "classid".toList, p1 ++ ":".toList ++ qid, "htb".toList] ++
        ' ' :: ("rate ".toList ++ rates) := by
  simp [spaced]

theorem wordsAt_classCommand (s : QueueTables) {cmdType : String} (hcmd : ' ' ∉ cmdType.toList)
    (hne : cmdType.toList ≠ []) (q : QueueInfo) : wordsAt ' ' (s.classCommand cmdType q) =
      "tc".toList :: (classWords s cmdType q ++ wordsAt ' ' ("rate ".toList ++ QueueTables.rates q)) := by
  have hblank : ∀ n, ' ' ∉ showNat n := fun n => not_mem_showNat (by decide)
  have hnic : ' ' ∉ s.nic q.port ∧ s.nic q.port ≠ [] := by
    unfold QueueTables.nic
    split <;> simp [hblank]
  have htext : s.classCommand cmdType q =
      "tc".toList ++ spaced ' ' (classWords s cmdType q) ++ ' ' :: ("rate ".toList ++ QueueTables.rates q) := by
    have hzero : showNat 0 = "0".toList := Nat.toDigits_zero 10
    rw [classWords, hzero]
    exact classText_eq cmdType.toList (s.nic q.port) (showNat (q.port + 1)) (showNat q.qid) (QueueTables.rates q)
  have hall : (classWords s cmdType q).filter (· ≠ []) = classWords s cmdType q := by
    rw [List.filter_eq_self]
    simp [classWords, hne, hnic.2]
  rw [htext, wordsAt_append_cons, wordsAt_spaced, wordsAt_of_not_mem (by decide), hall]
  · rfl
  · simp [classWords, hcmd, hnic.1, hblank]

theorem readArgs_class (nic parent classid : Text) (rest : List Text) :
    readArgs "classid" readClassid
      ("dev".toList :: nic :: "parent".toList :: parent :: "classid".toList :: classid :: "htb".toList :: rest) {} =
      (readClassid parent).bind fun p => (readClassid classid).map fun h =>
        { dev := some nic, parent := some p, handle := some h } := by
  have hkind : ∀ a : Args, readArgs "classid" readClassid ("htb".toList :: rest) a = some a := by
    intro a
    cases rest with
    | nil => rfl
    | cons v ws => simp [readArgs]
  cases hp : readClassid parent with
  | none => simp [readArgs, hp]
  | some p =>
    cases hc : readClassid classid with
    | none => simp [readArgs, hp, hc]
    | some h =>
      have hlast := hkind { dev := some nic, parent := some p, handle := some h }
      simp only [Option.bind_some, Option.map_some, ← hlast]
      simp [readArgs, hp, hc]

/-- What the first command of a queue says. -/
theorem read_classCommand (s : QueueTables) (cmdType : String) (hcmd : ' ' ∉ cmdType.toList)
    (hne : cmdType.toList ≠ []) (q : QueueInfo) : read (s.classCommand cmdType q) =
      if asHex (q.port + 1) < 2 ^ 16 ∧ asHex q.qid < 2 ^ 16 then
        some {
          object := "class".toList
          action := cmdType.toList
          args := {
            dev := some (s.nic q.port)
            parent := some (asHex (q.port + 1) * 2 ^ 16 + asHex 0)
            handle := some (asHex (q.port + 1) * 2 ^ 16 + asHex q.qid) } }
      else none := by
  have hread : read (s.classCommand cmdType q) =
      (readArgs "classid" readClassid ((classWords s cmdType q).drop 2 ++
        wordsAt ' ' ("rate ".toList ++ QueueTables.rates q)) {}).map
        fun args => { object := "class".toList, action := cmdType.toList, args } := by
    rw [read, wordsAt_classCommand s hcmd hne]
    rfl
  rw [hread]
  simp only [classWords, List.drop_succ_cons, List.drop_zero, List.cons_append, List.nil_append, readArgs_class,
    readClassid_showNat]
  by_cases hport : asHex (q.port + 1) < 2 ^ 16
  · have hzero : asHex 0 < 2 ^ 16 := by decide
    rw [if_pos ⟨hport, hzero⟩]
    by_cases hqid : asHex q.qid < 2 ^ 16
    · rw [if_pos ⟨hport, hqid⟩, if_pos ⟨hport, hqid⟩]
      rfl
    · have hboth : ¬(asHex (q.port + 1) < 2 ^ 16 ∧ asHex q.qid < 2 ^ 16) := fun h => hqid h.2
      rw [if_neg hboth, if_neg hboth]
      rfl
  · have hzero : ¬(asHex (q.port + 1) < 2 ^ 16 ∧ asHex 0 < 2 ^ 16) := fun h => hport h.1
    have hboth : ¬(asHex (q.port + 1) < 2 ^ 16 ∧ asHex q.qid < 2 ^ 16) := fun h => hport h.1
    simp only [if_neg hzero, if_neg hboth]
    rfl

end Tc

namespace QueueTables

variable {s : QueueTables} {run : Text → Bool} {q q' : QueueInfo}

/-- The router makes a queue: both commands succeed. -/
def Accepts (s : QueueTables) (run : Text → Bool) (q : QueueInfo) : Prop := (s.addQueue run q false).2 = .ok ()

instance (s : QueueTables) (run : Text → Bool) (q : QueueInfo) : Decidable (s.Accepts run q) :=
  match h : (s.addQueue run q false).2 with
  | .ok () => .isTrue h
  | .error _ => .isFalse (by simp [Accepts, h])

/-- A command makes a class on a device with a handle. -/
def MakesClass (command dev : Text) (handle : ℕ) : Prop :=
  ∃ parent, Tc.read command = some ⟨"class".toList, "add".toList, ⟨some dev, some parent, some handle⟩⟩

/-- Both lookups of a queue have the device and the handle of the class that was made. -/
def Agrees (s : QueueTables) (run : Text → Bool) (q : QueueInfo) : Prop :=
  ∃ command ∈ (s.addQueue run q false).1.head?, ∃ dev handle, MakesClass command dev handle ∧
    ∃ l ∈ s.readStats q.port q.qid, ∃ m ∈ s.readStatsClass q.port q.qid,
      l.1 = dev ∧ l.2.handle = handle ∧ m.1 = dev ∧ m.2.handle = handle

/-- The port of a queue that is accepted is configured, and the first command is read. -/
theorem Accepts.made (h : s.Accepts run q) (htc : ∀ c, run c = true → (Tc.read c).isSome) :
    (s.portTable q.port).configured = true ∧ (s.addQueue run q false).1.head? = some (s.classCommand "add" q) ∧
      MakesClass (s.classCommand "add" q) (s.nic q.port) (asHex (q.port + 1) * 2 ^ 16 + asHex q.qid) ∧
      asHex q.qid < 2 ^ 16 := by
  simp only [Accepts, addQueue, Bool.false_eq_true, if_false] at h ⊢
  by_cases hconf : (s.portTable q.port).configured = true
  · by_cases hrun : run (s.classCommand "add" q) = true
    · have hread := Tc.read_classCommand s "add" (by decide) (by decide) q
      have hsome := htc _ hrun
      rw [hread] at hsome
      by_cases hfits : asHex (q.port + 1) < 2 ^ 16 ∧ asHex q.qid < 2 ^ 16
      · rw [if_pos hfits] at hread
        refine ⟨hconf, ?_, ⟨_, hread⟩, hfits.2⟩
        simp only [hconf, hrun, Bool.not_true, Bool.false_eq_true, if_false]
        split <;> rfl
      · rw [if_neg hfits] at hsome
        cases hsome
    · simp [hconf, hrun] at h
  · simp [hconf] at h

theorem classHandle_eq_iff {port qid : ℕ} (hport : port < maxPort) (hqid : asHex qid < 2 ^ 16) :
    classHandle port qid = asHex (port + 1) * 2 ^ 16 + asHex qid ↔ port ≤ 18 ∧ qid ≤ 19 := by
  have hle := add_le_asHex qid
  have hcorrected := asHex_eq_corrected_iff qid
  have hcorrectedPort := asHex_eq_corrected_iff (port + 1)
  have hmax : maxPort = 32 := rfl
  have htwo : (2 : ℕ) ^ 16 = 65536 := by norm_num
  -- both corrections are the one for a number from 10 on
  have hq : (if qid > 9 then qid + 6 else qid) < 65536 := by split <;> omega
  have hp : (if port > 8 then port + 7 else port + 1) = if port + 1 > 9 then port + 1 + 6 else port + 1 := by
    split <;> split <;> omega
  have hp16 : (if port + 1 > 9 then port + 1 + 6 else port + 1) < 65536 := by split <;> omega
  simp only [classHandle, tcHandle, hp]
  rw [htwo] at hqid ⊢
  rw [Nat.mod_eq_of_lt hq, Nat.mod_eq_of_lt hp16]
  omega

theorem readStats_of_configured (h : (s.portTable q.port).configured = true) : s.readStats q.port q.qid =
    some (s.nic q.port,
      if q.qid = 0 then .qdisc (tcHandle (q.port + 1) 0) else .qdiscOf (classHandle q.port q.qid)) := by
  rw [readStats, h]
  by_cases hqid : q.qid = 0
  · simp [hqid]
  · simp [hqid]

/-- The lookups of a queue that is accepted. -/
theorem Accepts.agrees_iff (h : s.Accepts run q) (htc : ∀ c, run c = true → (Tc.read c).isSome) :
    s.Agrees run q ↔ q.port ≤ 18 ∧ q.qid ≤ 19 ∧ (q.qid = 0 → q.port ≤ 8) := by
  obtain ⟨hconf, hhead, hmade, hqid16⟩ := h.made htc
  have hport : q.port < maxPort := s.inTable _ hconf
  have hclass := classHandle_eq_iff hport hqid16
  have hstatsClass : s.readStatsClass q.port q.qid = some (s.nic q.port, .tcClass (classHandle q.port q.qid)) := by
    rw [readStatsClass, hconf]
    rfl
  -- without a queue the qdisc of the port is looked up, and there is no correction
  have hqdisc : q.qid = 0 → ((if q.qid = 0 then Lookup.qdisc (tcHandle (q.port + 1) 0)
      else .qdiscOf (classHandle q.port q.qid)).handle = asHex (q.port + 1) * 2 ^ 16 + asHex q.qid ↔ q.port ≤ 8) := by
    intro hzero
    have hle := add_le_asHex (q.port + 1)
    have hmax : maxPort = 32 := rfl
    have hasHex : asHex q.qid = 0 := by rw [hzero, asHex_of_lt (by decide)]
    rw [if_pos hzero, hasHex, Lookup.handle, tcHandle]
    constructor
    · intro heq
      omega
    · intro hp
      rw [asHex_of_lt (by omega)]
      omega
  have hother : q.qid ≠ 0 → (if q.qid = 0 then Lookup.qdisc (tcHandle (q.port + 1) 0)
      else .qdiscOf (classHandle q.port q.qid)).handle = classHandle q.port q.qid := by
    intro hne
    rw [if_neg hne]
    rfl
  constructor
  · rintro ⟨command, hcommand, dev, handle, ⟨parent, hread⟩, l, hl, m, hm, -, hlh, -, hmh⟩
    obtain rfl : s.classCommand "add" q = command := Option.some.inj (hhead.symm.trans hcommand)
    obtain ⟨parent', hread'⟩ := hmade
    rw [hread'] at hread
    simp only [Option.some.injEq, Tc.Command.mk.injEq, Tc.Args.mk.injEq, true_and] at hread
    obtain ⟨-, -, rfl⟩ := hread
    rw [readStats_of_configured hconf] at hl
    rw [hstatsClass] at hm
    obtain rfl := Option.some.inj hl
    obtain rfl := Option.some.inj hm
    obtain ⟨hp, hq⟩ := hclass.mp hmh
    exact ⟨hp, hq, fun hzero => (hqdisc hzero).mp hlh⟩
  · rintro ⟨hp, hq, hzero⟩
    have heq := hclass.mpr ⟨hp, hq⟩
    refine ⟨_, hhead, _, _, hmade, _, readStats_of_configured hconf, _, hstatsClass, rfl, ?_, rfl, heq⟩
    by_cases hqid : q.qid = 0
    · exact (hqdisc hqid).mpr (hzero hqid)
    · rw [← heq]
      exact hother hqid

/-- No two queues share a handle. -/
theorem eq_of_makesClass {dev dev' : Text} {handle : ℕ} (h : s.Accepts run q) (h' : s.Accepts run q')
    (htc : ∀ c, run c = true → (Tc.read c).isSome) (hmade : MakesClass (s.classCommand "add" q) dev handle)
    (hmade' : MakesClass (s.classCommand "add" q') dev' handle) : q.port = q'.port ∧ q.qid = q'.qid := by
  obtain ⟨-, -, ⟨parent, hread⟩, hqid⟩ := h.made htc
  obtain ⟨-, -, ⟨parent', hread'⟩, hqid'⟩ := h'.made htc
  obtain ⟨_, hmade⟩ := hmade
  obtain ⟨_, hmade'⟩ := hmade'
  rw [hread] at hmade
  rw [hread'] at hmade'
  simp only [Option.some.injEq, Tc.Command.mk.injEq, Tc.Args.mk.injEq, true_and] at hmade hmade'
  have heq := hmade.2.2.trans hmade'.2.2.symm
  have hmajor : asHex (q.port + 1) = asHex (q'.port + 1) := by omega
  have hminor : asHex q.qid = asHex q'.qid := by omega
  have hport := asHex_injective hmajor
  exact ⟨by omega, asHex_injective hminor⟩

/-- The lookups of a queue that the router makes have the handle that `tc` gave it if and only if its port and number
are small, and no other queue has that handle. -/
theorem handles_agree_iff (htc : ∀ c, run c = true → (Tc.read c).isSome) (h : s.Accepts run q) :
    (s.Agrees run q ↔ q.port ≤ 18 ∧ q.qid ≤ 19 ∧ (q.qid = 0 → q.port ≤ 8)) ∧
      ∀ q' dev dev' handle, s.Accepts run q' → MakesClass (s.classCommand "add" q) dev handle →
        MakesClass (s.classCommand "add" q') dev' handle → q.port = q'.port ∧ q.qid = q'.qid :=
  ⟨h.agrees_iff htc, fun _ _ _ _ h' hmade hmade' => eq_of_makesClass h h' htc hmade hmade'⟩

/-- A router with all its ports on one interface. -/
def vlanPorts : QueueTables where
  virtualPorts := true
  portTable p := if p < maxPort then { configured := true, vlan := 100 + p } else {}
  inTable := by
    intro p hp
    split at hp
    · assumption
    · cases hp

/-- All commands that can be read succeed. -/
def allRun (c : Text) : Bool := (Tc.read c).isSome

/-- Queue 20 is made with the handle 1:0x20, and 1:26 is looked up. -/
theorem queueTwenty_not_agrees :
    ¬∀ (s : QueueTables) run q, (∀ c, run c = true → (Tc.read c).isSome) → s.Accepts run q → s.Agrees run q := by
  intro h
  have haccepts : vlanPorts.Accepts allRun { port := 0, qid := 20, rate := 1000 } := by decide +kernel
  have hagrees := h vlanPorts allRun _ (fun _ hc => hc) haccepts
  obtain ⟨-, hqid, -⟩ := (haccepts.agrees_iff fun _ hc => hc).mp hagrees
  exact absurd hqid (by decide)

theorem queueTen_agrees : vlanPorts.Agrees allRun { port := 9, qid := 10, rate := 1000 } := by
  have haccepts : vlanPorts.Accepts allRun { port := 9, qid := 10, rate := 1000 } := by decide +kernel
  exact (handles_agree_iff (fun _ hc => hc) haccepts).1.mpr ⟨by decide, by decide, by decide⟩

end QueueTables

end OnlDaemons.Swrouter
