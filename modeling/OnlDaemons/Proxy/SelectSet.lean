import Mathlib.Data.Finset.Erase
import Mathlib.Data.Finset.Insert
import Mathlib.Logic.Function.Basic
import OnlDaemons.Lib.LeastBound
import OnlDaemons.Lib.Run

/-!
# What a session and the manager wait for

A session gives `select` its sets of descriptors and a number above all of them. When the connection with the greatest
descriptor is removed the number is found again from the table of the connections. The control pipe is not in that
table, a connection whose socket was closed has no descriptor there, and the set for writing is not looked at. The
manager would only find its number again for a descriptor that is greater than the number itself, so it never does.

## Main definitions

- `SelectSet`, `SelectSet.step` — the sets of a session, with its connections
- `SelectSet.Tight` — the number is the least above the descriptors
- `SelectSet.TopLeft` — an open connection is the greatest descriptor that is left
- `ManagerSet`, `ManagerSet.step` — the set of the manager, with its sessions

## Main result

- `SelectSet.tight_iff` — over runs of a session and of the manager
-/

namespace OnlDaemons.Proxy
open OnlDaemons.Lib

/-! ### A session -/

/-- `FD_SETSIZE`. -/
def fdSetsize : ℕ := 1024

/-- An entry of `conns` says whether its socket is open. `tx` is `txConn_`, and `slave` the id of the session that
watches this one. -/
structure SelectSet where
  cid : ℕ
  rcfd : ℕ
  conns : ℕ → Option Bool
  rset : Finset ℕ
  wset : Finset ℕ := ∅
  maxsd : ℕ
  slave : Option ℕ := none
  tx : Option ℕ := none

/-- `conns` of `doSlave` is the table of the slave, and `tx` says whose message could not be sent whole. -/
inductive SelectAct
  | addConn (sd : ℕ)
  | rmConn (id : ℕ)
  | doSlave (slave : ℕ) (conns : List (ℕ × Bool)) (tx : Option ℕ)
  | rmSlaveConn (id : ℕ)
  | rmSlaveSess
  | closeConn (id : ℕ)
  | setTxHandler (id : ℕ)
  | clearTxHandler
deriving DecidableEq, Repr

namespace SelectSet

def validCID (id : ℕ) : Bool := 0 < id && id < fdSetsize

def validConn (s : SelectSet) (id : ℕ) : Bool := validCID id && (s.conns id).isSome

/-- The constructor. The session is in its own table. -/
def init (cid rcfd : ℕ) : Option SelectSet :=
  if validCID cid && validCID rcfd then
    some {
      cid, rcfd
      conns := Function.update (fun _ => none) cid (some true)
      rset := {cid, rcfd}
      maxsd := max cid rcfd + 1 }
  else none

/-- What `addConn` and `addSlaveConn` have in common. -/
def add (s : SelectSet) (id : ℕ) (isOpen : Bool) : SelectSet :=
  { s with
    conns := Function.update s.conns id (some isOpen)
    rset := insert id s.rset
    maxsd := raise s.maxsd id }

/-- The loop over the table, where a closed socket has the descriptor -1. -/
def recalculate (conns : ℕ → Option Bool) : ℕ :=
  (List.range fdSetsize).foldl (fun maxsd i => if conns i = some true then raise maxsd i else maxsd) 0

/-- What the three functions have in common that remove a connection. -/
def drop (s : SelectSet) (id : ℕ) : SelectSet :=
  let conns := Function.update s.conns id none
  { s with
    conns
    rset := s.rset.erase id
    maxsd := if id + 1 = s.maxsd then recalculate conns else s.maxsd }

/-- The connection that a step removes. -/
def removed (s : SelectSet) : SelectAct → Option ℕ
  | .rmConn id => if s.validConn id ∧ id ≠ s.cid ∧ s.slave ≠ some id then some id else none
  | .rmSlaveConn id => if s.validConn id ∧ id ≠ s.cid ∧ s.slave ≠ some id then some id else none
  | .rmSlaveSess => s.slave.filter (s.validConn ·)
  | _ => none

/-- The connection with the pending message is put into the set for writing. -/
def setTx (s : SelectSet) (id : ℕ) : SelectSet := { s with tx := some id, wset := insert id s.wset }

/-- A slave with a pending message is open, and so it is in its own table. -/
def doSlave (s : SelectSet) (slave : ℕ) (conns : List (ℕ × Bool)) (tx : Option ℕ) : Option SelectSet :=
  if slave ≠ s.cid ∧ (∀ c ∈ conns, validCID c.1 ∧ c.1 ≠ s.rcfd ∧ c.1 ≠ s.cid) ∧
      (∀ id ∈ tx, s.tx = none ∧ (id = s.cid ∨ id = slave ∧ (slave, true) ∈ conns)) then
    let s := { s with slave := some slave }
    let s := tx.elim s s.setTx
    some (conns.foldl (fun s c => s.add c.1 c.2) s)
  else none

/-- A descriptor that the system gives is not that of the control pipe or of the session. -/
def exec (s : SelectSet) : SelectAct → Option SelectSet
  | .addConn sd =>
    if sd = s.rcfd ∨ sd = s.cid then none
    -- `addConn` throws
    else if !validCID sd then some s
    else some (s.add sd true)
  | .doSlave slave conns tx => s.doSlave slave conns tx
  | .closeConn id =>
    if s.validConn id ∧ id ≠ s.cid then some { s with conns := Function.update s.conns id (some false) } else none
  | .setTxHandler id =>
    if s.tx = none ∧ validCID id ∧ s.conns id = some true then some (s.setTx id) else none
  | .clearTxHandler => some (if s.tx.isSome then { s with wset := ∅, tx := none } else s)
  | .rmConn id => some ((s.removed (.rmConn id)).elim s s.drop)
  | .rmSlaveConn id => some ((s.removed (.rmSlaveConn id)).elim s s.drop)
  | .rmSlaveSess => some { (s.removed .rmSlaveSess).elim s s.drop with slave := none }

def step (s : SelectSet) (a : SelectAct) (t : SelectSet) : Prop := s.exec a = some t

/-- The descriptors in the two sets, and the control pipe. -/
def descriptors (s : SelectSet) : Set ℕ := insert s.rcfd {fd | fd ∈ s.rset ∨ fd ∈ s.wset}

/-- Every descriptor is below `maxsd_`, and no smaller number is above all of them. -/
def Tight (s : SelectSet) : Prop := IsLeast (bounds s.descriptors) s.maxsd

/-- An open connection is the greatest descriptor that is left without `id`. -/
def TopLeft (s : SelectSet) (id : ℕ) : Prop :=
  ∃ c < fdSetsize, c ≠ id ∧ s.conns c = some true ∧ (∀ fd ∈ s.rset, fd ≠ id → fd ≤ c) ∧ ∀ fd ∈ s.wset, fd ≤ c

instance (s : SelectSet) (id : ℕ) : Decidable (s.TopLeft id) := inferInstanceAs (Decidable (∃ c < _, _))

/-- Where the greatest descriptor is removed, an open connection is the greatest one that is left. -/
def Kept (s : SelectSet) (a : SelectAct) (_ : SelectSet) : Prop :=
  ∀ id ∈ s.removed a, id + 1 = s.maxsd → s.TopLeft id

instance (s : SelectSet) (a : SelectAct) (t : SelectSet) : Decidable (s.Kept a t) :=
  inferInstanceAs (Decidable (∀ id ∈ s.removed a, _ → _))

/-- The table is in the set for reading, which has the greatest descriptor. -/
structure Inv (s : SelectSet) : Prop where
  top : IsLeast (bounds {fd | fd ∈ s.rset}) s.maxsd
  below : ∀ fd ∈ s.wset, fd < s.maxsd
  conns : ∀ id, (s.conns id).isSome → id ∈ s.rset
  pipe : s.rcfd ∈ s.rset
  notConn : ∀ id, (s.conns id).isSome → id = s.rcfd → id = s.cid
  self : s.conns s.cid = some true
  slave : s.slave ≠ some s.cid

variable {s t : SelectSet} {a : SelectAct} {id c : ℕ}

/-- With the greatest descriptor in the set for reading the number is right for all. -/
theorem tight_of_top (htop : IsLeast (bounds {fd | fd ∈ s.rset}) s.maxsd) (hbelow : ∀ fd ∈ s.wset, fd < s.maxsd)
    (hpipe : s.rcfd ∈ s.rset) : s.Tight := by
  obtain ⟨hbound, hmax⟩ := isLeast_bounds_iff.mp htop
  apply isLeast_bounds_iff.mpr
  constructor
  · rintro fd (rfl | hfd | hfd)
    · exact hbound _ hpipe
    · exact hbound fd hfd
    · exact hbelow fd hfd
  · exact hmax.imp_right fun ⟨fd, hfd, he⟩ => ⟨fd, .inr (.inl hfd), he⟩

theorem Inv.tight (h : Inv s) : s.Tight := tight_of_top h.top h.below h.pipe

/-- The loop over the table finds the least number above the open sockets. -/
theorem isLeast_recalculate (conns : ℕ → Option Bool) :
    IsLeast (bounds {i | i < fdSetsize ∧ conns i = some true}) (recalculate conns) := by
  have hfold : recalculate conns =
      ((List.range fdSetsize).filter fun i => decide (conns i = some true)).foldl raise 0 := by
    rw [recalculate, List.foldl_filter]
    simp only [decide_eq_true_eq]
  have hset : {i | i < fdSetsize ∧ conns i = some true} =
      ∅ ∪ {i | i ∈ (List.range fdSetsize).filter fun i => decide (conns i = some true)} := by
    ext i
    simp
  rw [hfold, hset]
  exact isLeast_foldl_raise isLeast_bounds_empty _

theorem Inv.add (h : Inv s) (hne : c ≠ s.rcfd) (hself : c ≠ s.cid) (isOpen : Bool) : Inv (s.add c isOpen) := by
  have hinsert : {fd | fd ∈ (s.add c isOpen).rset} = insert c {fd | fd ∈ s.rset} := by
    ext fd
    simp [SelectSet.add]
  refine ⟨?_, fun fd hfd => (h.below fd hfd).trans_le (le_raise _ _), ?_, Finset.mem_insert_of_mem h.pipe, ?_, ?_,
    h.slave⟩
  · rw [hinsert]
    exact isLeast_raise h.top c
  · intro id hid
    by_cases he : id = c
    · rw [he]
      exact Finset.mem_insert_self c s.rset
    · have hid' : (Function.update s.conns c (some isOpen) id).isSome := hid
      rw [Function.update_of_ne he] at hid'
      exact Finset.mem_insert_of_mem (h.conns id hid')
  · intro id hid hr
    have hr' : id = s.rcfd := hr
    have hid' : (Function.update s.conns c (some isOpen) id).isSome := hid
    rw [Function.update_of_ne (by rw [hr']; exact hne.symm)] at hid'
    exact h.notConn id hid' hr'
  · show Function.update s.conns c (some isOpen) s.cid = some true
    rw [Function.update_of_ne hself.symm]
    exact h.self

/-- A step removes a connection that is in the table and is not the session. -/
theorem Inv.removed (h : Inv s) (hid : s.removed a = some id) :
    s.conns id ≠ none ∧ id ≠ s.cid ∧ id ≠ s.rcfd := by
  have hvalid : s.validConn id = true ∧ id ≠ s.cid := by
    cases a with
    | rmConn i =>
      simp only [SelectSet.removed, Option.ite_none_right_eq_some, Option.some.injEq] at hid
      exact ⟨hid.2 ▸ hid.1.1, hid.2 ▸ hid.1.2.1⟩
    | rmSlaveConn i =>
      simp only [SelectSet.removed, Option.ite_none_right_eq_some, Option.some.injEq] at hid
      exact ⟨hid.2 ▸ hid.1.1, hid.2 ▸ hid.1.2.1⟩
    | rmSlaveSess =>
      simp only [SelectSet.removed, Option.filter_eq_some_iff] at hid
      exact ⟨hid.2, fun he => h.slave (he ▸ hid.1)⟩
    | _ => cases hid
  simp only [validConn, Bool.and_eq_true] at hvalid
  have hsome := hvalid.1.2
  exact ⟨Option.isSome_iff_ne_none.mp hsome, hvalid.2, fun he => hvalid.2 (h.notConn id hsome he)⟩

/-- What is found again is right if and only if an open connection is the greatest descriptor that is left. -/
theorem recalculate_update_eq_iff {conns : ℕ → Option Bool} :
    recalculate (Function.update conns id none) = c + 1 ↔
      (c < fdSetsize ∧ c ≠ id ∧ conns c = some true) ∧
        ∀ i < fdSetsize, i ≠ id → conns i = some true → i ≤ c := by
  have hopen : ∀ i, Function.update conns id none i = some true ↔ i ≠ id ∧ conns i = some true := by
    intro i
    by_cases hi : i = id
    · simp [hi]
    · simp [hi, Function.update_of_ne]
  have hleast := isLeast_recalculate (Function.update conns id none)
  constructor
  · intro he
    rw [he] at hleast
    obtain ⟨hbound, hmax⟩ := isLeast_bounds_iff.mp hleast
    obtain hzero | ⟨i, ⟨hi, hiopen⟩, heq⟩ := hmax
    · cases hzero
    · obtain rfl : i = c := Nat.succ.inj heq
      refine ⟨⟨hi, (hopen i).mp hiopen⟩, fun j hj hne hjopen => ?_⟩
      exact Nat.le_of_lt_succ (hbound j ⟨hj, (hopen j).mpr ⟨hne, hjopen⟩⟩)
  · rintro ⟨⟨hc, hne, hcopen⟩, hall⟩
    have hin : c ∈ {i | i < fdSetsize ∧ Function.update conns id none i = some true} :=
      ⟨hc, (hopen c).mpr ⟨hne, hcopen⟩⟩
    apply hleast.unique
    apply isLeast_bounds_of_top hin
    intro i hi
    obtain ⟨hine, hiopen⟩ := (hopen i).mp hi.2
    exact hall i hi.1 hine hiopen

theorem maxsd_drop (htop : id + 1 = s.maxsd) :
    (s.drop id).maxsd = recalculate (Function.update s.conns id none) := by
  rw [SelectSet.drop, if_pos htop]

theorem Inv.drop (h : Inv s) (hid : s.conns id ≠ none ∧ id ≠ s.cid ∧ id ≠ s.rcfd)
    (hkept : id + 1 = s.maxsd → s.TopLeft id) : Inv (s.drop id) := by
  have hpipe : s.rcfd ∈ s.rset.erase id := Finset.mem_erase_of_ne_of_mem hid.2.2.symm h.pipe
  have hset : {fd | fd ∈ s.rset.erase id} = {fd | fd ∈ s.rset} \ {id} := by
    ext fd
    simp [and_comm]
  have htable : ∀ i, ((s.drop id).conns i).isSome → i ≠ id ∧ (s.conns i).isSome := by
    intro i hi
    have hi' : (Function.update s.conns id none i).isSome := hi
    by_cases he : i = id
    · rw [he, Function.update_self] at hi'
      cases hi'
    · rw [Function.update_of_ne he] at hi'
      exact ⟨he, hi'⟩
  have hself : (s.drop id).conns s.cid = some true := by
    show Function.update s.conns id none s.cid = some true
    rw [Function.update_of_ne hid.2.1.symm]
    exact h.self
  have hconns : ∀ i, ((s.drop id).conns i).isSome → i ∈ s.rset.erase id := by
    intro i hi
    obtain ⟨hne, hi'⟩ := htable i hi
    exact Finset.mem_erase_of_ne_of_mem hne (h.conns i hi')
  -- the set for reading has the greatest descriptor, and none for writing is greater
  have hbounds : IsLeast (bounds {fd | fd ∈ s.rset.erase id}) (s.drop id).maxsd ∧
      ∀ fd ∈ s.wset, fd < (s.drop id).maxsd := by
    by_cases htop : id + 1 = s.maxsd
    · obtain ⟨c, hc, hne, hopen, hread, hwrite⟩ := hkept htop
      have hmax : (s.drop id).maxsd = c + 1 := by
        rw [maxsd_drop htop]
        apply recalculate_update_eq_iff.mpr
        refine ⟨⟨hc, hne, hopen⟩, fun i _ hi hiopen => hread i (h.conns i ?_) hi⟩
        rw [hiopen]
        rfl
      have hin : c ∈ {fd | fd ∈ s.rset.erase id} := by
        apply hconns
        show (Function.update s.conns id none c).isSome
        rw [Function.update_of_ne hne, hopen]
        rfl
      rw [hmax]
      refine ⟨isLeast_bounds_of_top hin fun fd hfd => ?_, fun fd hfd => Nat.lt_succ_of_le (hwrite fd hfd)⟩
      obtain ⟨hfdne, hfdin⟩ := Finset.mem_erase.mp hfd
      exact hread fd hfdin hfdne
    · have hmax : (s.drop id).maxsd = s.maxsd := by rw [SelectSet.drop, if_neg htop]
      rw [hmax, hset]
      exact ⟨isLeast_diff h.top htop, h.below⟩
  exact ⟨hbounds.1, hbounds.2, hconns, hpipe, fun i hi he => h.notConn i (htable i hi).2 he, hself, h.slave⟩

/-- If the number is right after the greatest connection is removed, it is one more than an open one. -/
theorem topLeft_of_tight (htop : id + 1 = s.maxsd) (htight : (s.drop id).Tight) : s.TopLeft id := by
  obtain ⟨hbound, -⟩ := isLeast_bounds_iff.mp htight
  have hmax := maxsd_drop htop
  have hpos : 0 < (s.drop id).maxsd := Nat.zero_lt_of_lt (hbound s.rcfd (Set.mem_insert _ _))
  obtain ⟨c, hc⟩ := Nat.exists_eq_succ_of_ne_zero (Nat.ne_of_gt hpos)
  obtain ⟨⟨hlt, hne, hopen⟩, -⟩ := recalculate_update_eq_iff.mp (hmax.symm.trans hc)
  rw [hc] at hbound
  refine ⟨c, hlt, hne, hopen, fun fd hfd hfdne => ?_, fun fd hfd => ?_⟩
  · exact Nat.le_of_lt_succ (hbound fd (.inr (.inl (Finset.mem_erase_of_ne_of_mem hfdne hfd))))
  · exact Nat.le_of_lt_succ (hbound fd (.inr (.inr hfd)))

theorem Inv.setTx (h : Inv s) (hid : id < s.maxsd) : Inv (s.setTx id) := by
  refine ⟨h.top, fun fd hfd => ?_, h.conns, h.pipe, h.notConn, h.self, h.slave⟩
  obtain rfl | hfd := Finset.mem_insert.mp hfd
  · exact hid
  · exact h.below fd hfd

theorem Inv.lt_of_conn (h : Inv s) (hid : s.conns id = some true) : id < s.maxsd :=
  (isLeast_bounds_iff.mp h.top).1 id (h.conns id (by rw [hid]; rfl))

/-- The connections of the slave. -/
theorem Inv.addAll (h : Inv s) {conns : List (ℕ × Bool)} (hconns : ∀ c ∈ conns, c.1 ≠ s.rcfd ∧ c.1 ≠ s.cid) :
    Inv (conns.foldl (fun s c => s.add c.1 c.2) s) := by
  induction conns generalizing s with
  | nil => exact h
  | cons c conns ih =>
    obtain ⟨hpipe, hself⟩ := hconns c List.mem_cons_self
    exact ih (h.add hpipe hself c.2) fun d hd => hconns d (List.mem_cons_of_mem _ hd)

theorem foldl_add_setTx (conns : List (ℕ × Bool)) :
    conns.foldl (fun s c => s.add c.1 c.2) (s.setTx id) = (conns.foldl (fun s c => s.add c.1 c.2) s).setTx id := by
  induction conns generalizing s with
  | nil => rfl
  | cons c conns ih => exact ih (s := s.add c.1 c.2)

theorem mem_rset_addAll {conns : List (ℕ × Bool)} (hid : id ∈ s.rset ∨ id ∈ conns.map Prod.fst) :
    id ∈ (conns.foldl (fun s c => s.add c.1 c.2) s).rset := by
  induction conns generalizing s with
  | nil => simpa using hid
  | cons c conns ih =>
    apply ih
    simp only [List.map_cons, List.mem_cons] at hid
    obtain hin | rfl | hin := hid
    · exact .inl (Finset.mem_insert_of_mem hin)
    · exact .inl (Finset.mem_insert_self _ _)
    · exact .inr hin

theorem Inv.doSlave (h : Inv s) {slave : ℕ} {conns : List (ℕ × Bool)} {tx : Option ℕ}
    (ht : s.doSlave slave conns tx = some t) : Inv t := by
  simp only [SelectSet.doSlave, Option.ite_none_right_eq_some, Option.some.injEq] at ht
  obtain ⟨⟨hslave, hconns, htx⟩, rfl⟩ := ht
  have hstart : Inv { s with slave := some slave } :=
    ⟨h.top, h.below, h.conns, h.pipe, h.notConn, h.self, fun he => hslave (Option.some.inj he)⟩
  have hall := hstart.addAll fun c hc => (hconns c hc).2
  cases tx with
  | none => exact hall
  | some id =>
    show Inv (conns.foldl (fun s c => s.add c.1 c.2) (SelectSet.setTx { s with slave := some slave } id))
    rw [foldl_add_setTx]
    apply hall.setTx
    -- what is pending is the session's own message or that of a slave in the table
    apply (isLeast_bounds_iff.mp hall.top).1
    apply mem_rset_addAll
    obtain ⟨-, rfl | ⟨rfl, hin⟩⟩ := htx id rfl
    · exact .inl (h.conns s.cid (by rw [h.self]; rfl))
    · exact .inr (List.mem_map_of_mem hin)

/-- A step that removes a connection does nothing else to the sets. -/
theorem exec_of_removed (hid : s.removed a = some id) (ht : s.exec a = some t) :
    t = s.drop id ∨ t = { s.drop id with slave := none } := by
  cases a with
  | rmConn i =>
    simp only [exec, hid, Option.elim_some, Option.some.injEq] at ht
    exact .inl ht.symm
  | rmSlaveConn i =>
    simp only [exec, hid, Option.elim_some, Option.some.injEq] at ht
    exact .inl ht.symm
  | rmSlaveSess =>
    simp only [exec, hid, Option.elim_some, Option.some.injEq] at ht
    exact .inr ht.symm
  | _ => cases hid

/-- The other steps keep the invariant. -/
theorem Inv.exec_of_not_removed (h : Inv s) (hid : s.removed a = none) (ht : s.exec a = some t) : Inv t := by
  cases a with
  | addConn sd =>
    simp only [exec] at ht
    split at ht
    · cases ht
    · next hne =>
      split at ht <;> cases ht
      · exact h
      · exact h.add (fun he => hne (.inl he)) (fun he => hne (.inr he)) true
  | doSlave slave conns tx => exact h.doSlave ht
  | closeConn i =>
    simp only [exec, Option.ite_none_right_eq_some, Option.some.injEq] at ht
    obtain ⟨⟨hvalid, hne⟩, rfl⟩ := ht
    have hsome : (s.conns i).isSome := by
      simp only [validConn, Bool.and_eq_true] at hvalid
      exact hvalid.2
    have htable : ∀ j, (Function.update s.conns i (some false) j).isSome → (s.conns j).isSome := by
      intro j hj
      by_cases he : j = i
      · rw [he]
        exact hsome
      · rwa [Function.update_of_ne he] at hj
    refine ⟨h.top, h.below, fun j hj => h.conns j (htable j hj), h.pipe,
      fun j hj he => h.notConn j (htable j hj) he, ?_, h.slave⟩
    show Function.update s.conns i (some false) s.cid = some true
    rw [Function.update_of_ne hne.symm]
    exact h.self
  | setTxHandler i =>
    simp only [exec, Option.ite_none_right_eq_some, Option.some.injEq] at ht
    obtain ⟨⟨-, -, hopen⟩, rfl⟩ := ht
    exact h.setTx (h.lt_of_conn hopen)
  | clearTxHandler =>
    simp only [exec, Option.some.injEq] at ht
    split at ht <;> cases ht
    · exact ⟨h.top, nofun, h.conns, h.pipe, h.notConn, h.self, h.slave⟩
    · exact h
  | rmConn i =>
    simp only [exec, hid, Option.elim_none, Option.some.injEq] at ht
    exact ht ▸ h
  | rmSlaveConn i =>
    simp only [exec, hid, Option.elim_none, Option.some.injEq] at ht
    exact ht ▸ h
  | rmSlaveSess =>
    simp only [exec, hid, Option.elim_none, Option.some.injEq] at ht
    rw [← ht]
    exact ⟨h.top, h.below, h.conns, h.pipe, h.notConn, h.self, nofun⟩

theorem Inv.step (h : Inv s) (ht : SelectSet.step s a t) (hkept : s.Kept a t) : Inv t := by
  cases hid : s.removed a with
  | none => exact h.exec_of_not_removed hid ht
  | some id =>
    have hdrop := h.drop (h.removed hid) (hkept id hid)
    obtain rfl | rfl := exec_of_removed hid ht
    · exact hdrop
    · exact ⟨hdrop.top, hdrop.below, hdrop.conns, hdrop.pipe, hdrop.notConn, hdrop.self, nofun⟩

theorem kept_of_tight (ht : SelectSet.step s a t) (htight : t.Tight) : s.Kept a t := by
  intro id hid htop
  apply topLeft_of_tight htop
  obtain rfl | rfl := exec_of_removed hid ht
  · exact htight
  · exact htight

theorem inv_init {cid rcfd : ℕ} (hs : init cid rcfd = some s) : Inv s := by
  simp only [init, Option.ite_none_right_eq_some, Option.some.injEq] at hs
  obtain ⟨-, rfl⟩ := hs
  have hmem : ∀ fd, fd ∈ ({cid, rcfd} : Finset ℕ) ↔ fd = cid ∨ fd = rcfd := by
    intro fd
    rw [Finset.mem_insert, Finset.mem_singleton]
  have hself : (Function.update (fun _ => none) cid (some true) : ℕ → Option Bool) cid = some true :=
    by rw [Function.update_self]
  have hconn : ∀ id, ((Function.update (fun _ => none) cid (some true) : ℕ → Option Bool) id).isSome → id = cid := by
    intro id hid
    by_contra hne
    rw [Function.update_of_ne hne] at hid
    cases hid
  have htop : IsLeast (bounds {fd | fd ∈ ({cid, rcfd} : Finset ℕ)}) (max cid rcfd + 1) := by
    apply isLeast_bounds_of_top
    · exact (hmem _).mpr (max_choice cid rcfd)
    · intro fd hfd
      obtain rfl | rfl := (hmem fd).mp hfd
      · exact Nat.le_max_left _ _
      · exact Nat.le_max_right _ _
  exact ⟨htop, nofun, fun id hid => (hmem id).mpr (.inl (hconn id hid)), (hmem rcfd).mpr (.inr rfl),
    fun id hid _ => hconn id hid, hself, nofun⟩

end SelectSet

/-! ### The manager -/

/-- `sRec`. `own` is the descriptor in the copy that the thread of the session has. -/
structure SessRec where
  own : ℕ
  rcfd : Option ℕ
deriving DecidableEq, Repr

/-- `pending` has the sessions whose threads have not begun. -/
structure ManagerSet where
  lsock : ℕ
  csock : ℕ
  svec : List SessRec := []
  pending : List ℕ := []
  rset : Finset ℕ
  maxsd : ℕ

/-- `failSession` is an error of `mkSession` after the descriptor was added; `eof` is for the entry `i` of `svec_`. -/
inductive ManagerAct
  | mkSession (fd : ℕ)
  | failSession (fd : ℕ)
  | addSession (fd : ℕ)
  | eof (i : ℕ)
  | remSession (i : ℕ)
deriving DecidableEq, Repr

namespace ManagerSet

def addFD (s : ManagerSet) (fd : ℕ) : ManagerSet := { s with maxsd := raise s.maxsd fd, rset := insert fd s.rset }

def resetMaxsd (s : ManagerSet) : ℕ := raise (raise ((s.svec.filterMap SessRec.rcfd).foldl raise 0) s.lsock) s.csock

/-- The number is found again only for a descriptor that is above it. -/
def remFD (s : ManagerSet) (fd : ℕ) : ManagerSet :=
  { s with maxsd := if fd = s.maxsd + 1 then s.resetMaxsd else s.maxsd, rset := s.rset.erase fd }

/-- The constructor. -/
def init (lsock csock : ℕ) : ManagerSet :=
  (addFD { lsock, csock, rset := ∅, maxsd := 0 } lsock).addFD csock

/-- The descriptor that a step removes. -/
def removed (s : ManagerSet) : ManagerAct → Option ℕ
  | .failSession fd => if fd ∈ s.pending then some fd else none
  | .eof i => s.svec[i]?.bind SessRec.rcfd
  | .remSession i => s.svec[i]?.map SessRec.own
  | _ => none

/-- What a step does besides the set. -/
def listed (s : ManagerSet) : ManagerAct → ManagerSet
  | .mkSession fd => { s with pending := fd :: s.pending }
  | .failSession fd => { s with pending := s.pending.erase fd }
  | .addSession fd => { s with pending := s.pending.erase fd, svec := s.svec ++ [⟨fd, some fd⟩] }
  | .eof i => { s with svec := s.svec.modify i fun r => { r with rcfd := none } }
  | .remSession i => { s with svec := s.svec.eraseIdx i }

def exec (s : ManagerSet) (a : ManagerAct) : Option ManagerSet :=
  match a with
  | .mkSession fd => some ((s.listed a).addFD fd)
  | .addSession fd => if fd ∈ s.pending then some (s.listed a) else none
  | _ => some ((s.removed a).elim s (s.listed a).remFD)

def step (s : ManagerSet) (a : ManagerAct) (t : ManagerSet) : Prop := s.exec a = some t

def Tight (s : ManagerSet) : Prop := IsLeast (bounds {fd | fd ∈ s.rset}) s.maxsd

/-- The greatest descriptor is not removed. -/
def Kept (s : ManagerSet) (a : ManagerAct) (_ : ManagerSet) : Prop := ∀ fd ∈ s.removed a, fd + 1 ≠ s.maxsd

instance (s : ManagerSet) (a : ManagerAct) (t : ManagerSet) : Decidable (s.Kept a t) :=
  inferInstanceAs (Decidable (∀ fd ∈ s.removed a, _))

/-- The descriptors in the lists are below a number. -/
structure Below (s : ManagerSet) (m : ℕ) : Prop where
  pending : ∀ fd ∈ s.pending, fd < m
  svec : ∀ r ∈ s.svec, r.own < m ∧ ∀ fd ∈ r.rcfd, fd < m

/-- Every descriptor that may be removed was added once, and the number never goes down. -/
structure Inv (s : ManagerSet) : Prop where
  tight : Tight s
  below : Below s s.maxsd

variable {s t : ManagerSet} {a : ManagerAct} {fd : ℕ}

theorem Inv.removed (h : Inv s) (hfd : s.removed a = some fd) : fd < s.maxsd := by
  cases a with
  | failSession x =>
    simp only [ManagerSet.removed, Option.ite_none_right_eq_some, Option.some.injEq] at hfd
    exact hfd.2 ▸ h.below.pending x hfd.1
  | eof i =>
    obtain ⟨r, hr, hrfd⟩ := Option.bind_eq_some_iff.mp hfd
    exact (h.below.svec r (List.mem_of_getElem? hr)).2 fd hrfd
  | remSession i =>
    obtain ⟨r, hr, rfl⟩ := Option.map_eq_some_iff.mp hfd
    exact (h.below.svec r (List.mem_of_getElem? hr)).1
  | _ => cases hfd

theorem Below.mono {m n : ℕ} (h : Below s m) (hle : m ≤ n) : Below s n :=
  ⟨fun fd hfd => (h.pending fd hfd).trans_le hle,
    fun r hr => ⟨(h.svec r hr).1.trans_le hle, fun fd hfd => ((h.svec r hr).2 fd hfd).trans_le hle⟩⟩

/-- The lists after a step have only descriptors that were in them before, but for the one that is made. -/
theorem Below.listed {m : ℕ} (h : Below s m) (hmake : ∀ fd, a = .mkSession fd → fd < m)
    (hbegin : ∀ fd, a = .addSession fd → fd ∈ s.pending) : Below (s.listed a) m := by
  cases a with
  | mkSession fd => exact ⟨List.forall_mem_cons.mpr ⟨hmake fd rfl, h.pending⟩, h.svec⟩
  | failSession fd => exact ⟨fun x hx => h.pending x (List.mem_of_mem_erase hx), h.svec⟩
  | addSession fd =>
    refine ⟨fun x hx => h.pending x (List.mem_of_mem_erase hx), fun r hr => ?_⟩
    obtain hr | hr := List.mem_append.mp hr
    · exact h.svec r hr
    · obtain rfl := List.mem_singleton.mp hr
      have hfd := h.pending fd (hbegin fd rfl)
      exact ⟨hfd, fun x hx => Option.some.inj hx ▸ hfd⟩
  | eof i =>
    refine ⟨h.pending, fun r hr => ?_⟩
    obtain ⟨j, hj⟩ := List.mem_iff_getElem?.mp hr
    rw [ManagerSet.listed, List.getElem?_modify] at hj
    obtain ⟨r', hr', rfl⟩ := Option.map_eq_some_iff.mp hj
    have hold := h.svec r' (List.mem_of_getElem? hr')
    by_cases hi : i = j
    · rw [if_pos hi]
      exact ⟨hold.1, nofun⟩
    · rw [if_neg hi]
      exact hold
  | remSession i => exact ⟨h.pending, fun r hr => h.svec r (List.mem_of_mem_eraseIdx hr)⟩

@[simp] theorem maxsd_listed (s : ManagerSet) (a : ManagerAct) : (s.listed a).maxsd = s.maxsd := by
  cases a <;> rfl

@[simp] theorem rset_listed (s : ManagerSet) (a : ManagerAct) : (s.listed a).rset = s.rset := by
  cases a <;> rfl

/-- No descriptor that is removed is above the number. -/
theorem Inv.maxsd_remFD (h : Inv s) (hfd : s.removed a = some fd) : ((s.listed a).remFD fd).maxsd = s.maxsd := by
  have hlt := h.removed hfd
  have hne : fd ≠ (s.listed a).maxsd + 1 := by
    rw [maxsd_listed]
    omega
  rw [remFD, if_neg hne, maxsd_listed]

theorem elim_cases {o : Option ℕ} {f : ℕ → ManagerSet} {P : Prop} (ht : o.elim s f = t) :
    (∃ fd, o = some fd ∧ t = f fd) ∨ (o = none ∧ (t = s ∨ P)) := by
  cases o with
  | none => exact .inr ⟨rfl, .inl ht.symm⟩
  | some fd => exact .inl ⟨fd, rfl, ht.symm⟩

/-- What a step does: it adds a descriptor, removes one, or only changes the lists. -/
theorem exec_cases (ht : s.exec a = some t) :
    (∃ fd, a = .mkSession fd ∧ t = (s.listed a).addFD fd) ∨
    (∃ fd, s.removed a = some fd ∧ t = (s.listed a).remFD fd) ∨
    (s.removed a = none ∧ (t = s ∨ ∃ fd ∈ s.pending, a = .addSession fd ∧ t = s.listed a)) := by
  cases a with
  | mkSession fd => exact .inl ⟨fd, rfl, (Option.some.inj ht).symm⟩
  | addSession fd =>
    simp only [exec, Option.ite_none_right_eq_some, Option.some.injEq] at ht
    exact .inr (.inr ⟨rfl, .inr ⟨fd, ht.1, rfl, ht.2.symm⟩⟩)
  | failSession _ | eof _ | remSession _ =>
    simp only [exec, Option.some.injEq] at ht
    exact .inr (elim_cases ht)

theorem Inv.step (h : Inv s) (ht : ManagerSet.step s a t) (hkept : s.Kept a t) : Inv t := by
  obtain ⟨fd, rfl, rfl⟩ | ⟨fd, hfd, rfl⟩ | ⟨-, rfl | ⟨fd, hfd, rfl, rfl⟩⟩ := exec_cases ht
  · have hset : {x | x ∈ ((s.listed (.mkSession fd)).addFD fd).rset} = insert fd {x | x ∈ s.rset} := by
      ext x
      simp [addFD]
    have hlists : Below (s.listed (.mkSession fd)) (raise s.maxsd fd) := by
      apply (h.below.mono (le_raise s.maxsd fd)).listed
      · intro x hx
        rw [← ManagerAct.mkSession.inj hx]
        exact lt_raise s.maxsd fd
      · intro x hx
        cases hx
    refine ⟨?_, hlists.pending, hlists.svec⟩
    rw [Tight, hset]
    exact isLeast_raise h.tight fd
  · have hset : {x | x ∈ ((s.listed a).remFD fd).rset} = {x | x ∈ s.rset} \ {fd} := by
      ext x
      simp [remFD, and_comm]
    have hmax := h.maxsd_remFD hfd
    refine ⟨?_, ?_⟩
    · rw [Tight, hset, hmax]
      exact isLeast_diff h.tight (hkept fd hfd)
    · rw [hmax]
      have hlists := h.below.listed (a := a) (fun x hx => by rw [hx] at hfd; cases hfd)
        (fun x hx => by rw [hx] at hfd; cases hfd)
      exact ⟨hlists.pending, hlists.svec⟩
  · exact h
  · refine ⟨h.tight, h.below.listed (fun x hx => by cases hx) fun x hx => ?_⟩
    rw [← ManagerAct.addSession.inj hx]
    exact hfd

/-- The number stays where it is, so it is not right after the greatest descriptor is removed. -/
theorem Inv.kept_of_tight (h : Inv s) (ht : ManagerSet.step s a t) (htight : t.Tight) : s.Kept a t := by
  intro fd hfd htop
  have hdrop : t = (s.listed a).remFD fd := by
    obtain ⟨x, rfl, -⟩ | ⟨x, hx, rfl⟩ | ⟨hnone, -⟩ := exec_cases ht
    · cases hfd
    · rw [hfd] at hx
      rw [Option.some.inj hx]
    · rw [hnone] at hfd
      cases hfd
  have hmax := h.maxsd_remFD hfd
  rw [hdrop, Tight] at htight
  obtain ⟨-, hzero | ⟨x, hx, hxtop⟩⟩ := isLeast_bounds_iff.mp htight
  · omega
  · obtain ⟨hne, -⟩ := Finset.mem_erase.mp hx
    omega

theorem inv_init (lsock csock : ℕ) : Inv (init lsock csock) := by
  have hset : {fd | fd ∈ (init lsock csock).rset} = insert csock (insert lsock ∅) := by
    ext fd
    simp [init, addFD]
  refine ⟨?_, nofun, nofun⟩
  rw [Tight, hset]
  exact isLeast_raise (isLeast_raise isLeast_bounds_empty lsock) csock

end ManagerSet

/-- In a run of a session `maxsd_` is always the least number above its descriptors if and only if, whenever the
greatest one is removed, an open connection is the greatest that is left; in one of the manager, if and only if the
greatest one is never removed. -/
theorem SelectSet.tight_iff {cid rcfd : ℕ} {s : SelectSet} (hs : SelectSet.init cid rcfd = some s)
    {tr : List (SelectAct × SelectSet)} (hr : IsRun SelectSet.step s tr) {lsock csock : ℕ}
    {mtr : List (ManagerAct × ManagerSet)} (hm : IsRun ManagerSet.step (ManagerSet.init lsock csock) mtr) :
    (EveryState SelectSet.Tight s tr ↔ EveryStep SelectSet.Kept s tr) ∧
      (EveryState ManagerSet.Tight (ManagerSet.init lsock csock) mtr ↔
        EveryStep ManagerSet.Kept (ManagerSet.init lsock csock) mtr) := by
  constructor
  · exact hr.everyState_iff (fun _ _ _ h ht hk => SelectSet.Inv.step h ht hk)
      (fun _ _ _ _ ht htight => SelectSet.kept_of_tight ht htight) (fun _ h => SelectSet.Inv.tight h)
      (SelectSet.inv_init hs)
  · exact hm.everyState_iff (fun _ _ _ h ht hk => ManagerSet.Inv.step h ht hk)
      (fun _ _ _ h ht htight => ManagerSet.Inv.kept_of_tight h ht htight) (fun _ h => ManagerSet.Inv.tight h)
      (ManagerSet.inv_init lsock csock)

/-- The last connection is closed, and the control pipe is not waited for any more. -/
theorem SelectSet.lastConn_not_tight :
    ¬∀ cid rcfd s tr, SelectSet.init cid rcfd = some s → IsRun SelectSet.step s tr →
      EveryState SelectSet.Tight s tr := by
  intro h
  have hrun := h 5 6 _ _ rfl (isRun_runOf SelectSet.exec _ [.addConn 9, .rmConn 9])
  obtain ⟨-, -, htight⟩ := hrun
  have hpipe := (isLeast_bounds_iff.mp htight).1 6 (Set.mem_insert _ _)
  exact absurd hpipe (by decide +kernel)

/-- Two connections are closed, and the one with the greatest descriptor is not the last one; a session ends before
another one that came later. -/
theorem SelectSet.twoConns_tight : ∃ s, SelectSet.init 5 6 = some s ∧
    EveryState SelectSet.Tight s (runOf SelectSet.exec s [.addConn 9, .addConn 12, .rmConn 12, .addConn 8, .rmConn 8]) ∧
    EveryState ManagerSet.Tight (ManagerSet.init 3 4)
      (runOf ManagerSet.exec (ManagerSet.init 3 4)
        [.mkSession 7, .addSession 7, .mkSession 11, .addSession 11, .eof 0, .remSession 0]) := by
  refine ⟨_, rfl, ?_⟩
  obtain ⟨hsession, hmanager⟩ := SelectSet.tight_iff (show SelectSet.init 5 6 = some _ from rfl)
    (isRun_runOf SelectSet.exec _ [.addConn 9, .addConn 12, .rmConn 12, .addConn 8, .rmConn 8])
    (isRun_runOf ManagerSet.exec (ManagerSet.init 3 4)
      [.mkSession 7, .addSession 7, .mkSession 11, .addSession 11, .eof 0, .remSession 0])
  exact ⟨hsession.mpr (by decide +kernel), hmanager.mpr (by decide +kernel)⟩

end OnlDaemons.Proxy
