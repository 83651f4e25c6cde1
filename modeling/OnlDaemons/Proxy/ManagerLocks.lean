import OnlDaemons.Proxy.Manager
import Mathlib.Data.List.Nodup

/-!
# Waiting in the proxy

The manager holds the lock of the vector while it reads the pipe of a session. The session has then
something to answer or has closed its end, so the read comes to an end; only the command that lists the
sessions takes the lock a second time.

## Main definitions

- `ProxyState.NoDeadlock` — nobody waits for a lock of his own, nor the manager for a session that waits
- `ProxyState.NoListing` — the steps other than the command that lists the sessions

## Main result

- `ProxyState.noDeadlock_of_noListing` — over runs
-/

namespace OnlDaemons.Proxy
open OnlDaemons.Lib

def MgrPc.holds : MgrPc → Bool
  | accept | scan _ | master _ _ _ | await _ _ _ | reply _ _ _ _ | sessions | control _ | shutdown _ => true
  | _ => false

def SessPc.holds : SessPc → Bool
  | adding | leaving => true
  | _ => false

namespace ProxyState

/-- The session whose pipe the manager reads. -/
def reads (s : ProxyState) (i : ℕ) : Prop :=
  (∃ todo, s.mgr = .scan (i :: todo)) ∨ ∃ j todo, s.mgr = .await j i todo

def NoListing : ProxyAct → Prop
  | .select .getSessions => False
  | _ => True

end ProxyState

/-! ### The invariant -/

def SessPc.listed : SessPc → Bool
  | run | answer _ | grant | ending | leaving => true
  | _ => false

def SessPc.answers : SessPc → ℕ
  | answer _ => 1
  | _ => 0

/-- The session has to answer. -/
def SessionCmd.asks : SessionCmd → Bool
  | slave a => a ≠ 0
  | _ => false

namespace Sess

/-- The messages that the manager can still read: those that are written, and the answers. -/
def due (x : Sess) : ℕ := x.toMgr.length + x.toSess.countP SessionCmd.asks + x.pc.answers

/-- A session that closes has closed its pipes, and its thread leaves `run` only then. -/
structure Ok (x : Sess) : Prop where
  closing : x.closing = true → x.isOpen = false
  ended : x.pc = .ending ∨ x.pc = .leaving ∨ x.pc = .done → x.isOpen = false

/-- What a session does, or what is done to it, while its thread runs. -/
structure Later (x y : Sess) : Prop where
  cid : y.cid = x.cid
  born : y.pc ≠ .unborn → x.pc ≠ .unborn
  listed : y.pc.listed = x.pc.listed
  holds : y.pc.holds = x.pc.holds
  due : y.isOpen = true → x.isOpen = true ∧ x.due ≤ y.due
  ok : x.Ok → y.Ok

variable {x y z : Sess}

theorem Later.refl (x : Sess) : x.Later x := ⟨rfl, id, rfl, rfl, fun ho => ⟨ho, Nat.le_refl _⟩, id⟩

theorem Later.trans (h : x.Later y) (h' : y.Later z) : x.Later z := by
  refine ⟨h'.cid.trans h.cid, h.born ∘ h'.born, h'.listed.trans h.listed, h'.holds.trans h.holds, fun ho => ?_, h'.ok ∘ h.ok⟩
  obtain ⟨hy, hd'⟩ := h'.due ho
  obtain ⟨hx, hd⟩ := h.due hy
  exact ⟨hx, Nat.le_trans hd hd'⟩

/-- Only fields that have nothing to do with the pipes change. -/
theorem Later.of_same (hcid : y.cid = x.cid) (hpc : y.pc = x.pc) (hsess : y.toSess = x.toSess)
    (hmgr : y.toMgr = x.toMgr) (hopen : y.isOpen = x.isOpen) (hclosing : y.closing = x.closing) :
    x.Later y := by
  refine ⟨hcid, by rw [hpc]; exact id, by rw [hpc], by rw [hpc], fun ho => ⟨by rwa [← hopen], ?_⟩,
    fun hx => ⟨?_, ?_⟩⟩
  · apply Nat.le_of_eq
    rw [Sess.due, Sess.due, hpc, hsess, hmgr]
  · rw [hclosing, hopen]
    exact hx.closing
  · rw [hpc, hopen]
    exact hx.ended

theorem later_tell (x : Sess) (c : SessionCmd) : x.Later (x.tell c) := by
  unfold tell
  split
  · refine ⟨rfl, id, rfl, rfl, fun ho => ⟨ho, ?_⟩, fun hx => ⟨hx.closing, hx.ended⟩⟩
    show x.toMgr.length + x.toSess.countP _ + x.pc.answers ≤
      x.toMgr.length + (x.toSess ++ [c]).countP _ + x.pc.answers
    rw [List.countP_append]
    omega
  · exact .refl x

theorem later_close (x : Sess) : x.Later x.close := by
  unfold close
  split
  · exact .refl x
  · exact ⟨rfl, id, rfl, rfl, nofun, fun _ => ⟨fun _ => rfl, fun _ => rfl⟩⟩

theorem closing_close (x : Sess) : x.close.closing = true := by
  unfold close
  split
  · assumption
  · rfl

theorem later_masterResp (x : Sess) (res : ℕ) : x.Later (x.masterResp res) := by
  unfold masterResp
  split
  · exact .refl x
  · split
    · exact .of_same rfl rfl rfl rfl rfl rfl
    · exact .of_same rfl rfl rfl rfl rfl rfl

/-- A command is taken from the pipe that need not be answered. -/
theorem later_pop {c : SessionCmd} {l : List SessionCmd} (hl : x.toSess = c :: l) (hc : c.asks = false) :
    x.Later { x with toSess := l } := by
  refine ⟨rfl, id, rfl, rfl, fun ho => ⟨ho, ?_⟩, fun hx => ⟨hx.closing, hx.ended⟩⟩
  show x.toMgr.length + x.toSess.countP _ + _ ≤ x.toMgr.length + l.countP _ + _
  apply Nat.le_of_eq
  rw [hl, List.countP_cons_of_neg (by rw [hc]; decide)]

/-- A request to observe the session is taken from the pipe and will be answered. -/
theorem later_slave {sid : ℕ} {l : List SessionCmd} (hl : x.toSess = .slave sid :: l) (hs : sid ≠ 0)
    (hpc : x.pc = .run) (hy : y.pc = .answer sid) (hcid : y.cid = x.cid) (hsess : y.toSess = l)
    (hmgr : y.toMgr = x.toMgr) (hopen : y.isOpen = x.isOpen) (hclosing : y.closing = x.closing) :
    x.Later y := by
  refine ⟨hcid, by rw [hpc]; nofun, by rw [hpc, hy]; rfl, by rw [hpc, hy]; rfl, fun ho => ⟨by rwa [← hopen], ?_⟩,
    fun hx => ⟨by rw [hclosing, hopen]; exact hx.closing, by rw [hy]; nofun⟩⟩
  rw [due, due, hl, hsess, hmgr, hpc, hy,
    List.countP_cons_of_pos (by rw [SessionCmd.asks]; exact decide_eq_true hs)]
  show _ + (_ + 1) + 0 ≤ _ + _ + 1
  omega

end Sess

/-- How many messages of the session the manager is going to read. -/
def MgrPc.toRead (i : ℕ) : MgrPc → ℕ
  | wantRecv todo | scan todo | master _ _ todo | reply _ _ _ todo => if i ∈ todo then 1 else 0
  | await _ m todo => (if i ∈ todo then 1 else 0) + if i = m then 1 else 0
  | _ => 0

/-- The sessions that the manager has still to do with. -/
def MgrPc.names : MgrPc → List ℕ
  | scan todo => todo
  | master i _ todo => i :: todo
  | await i m todo => i :: m :: todo
  | reply i _ _ todo => i :: todo
  | _ => []

def MgrPc.todo : MgrPc → List ℕ
  | scan todo | master _ _ todo | await _ _ todo | reply _ _ _ todo => todo
  | _ => []

namespace ProxyState

structure LockInv (s : ProxyState) : Prop where
  manager : s.lock = some .manager ↔ s.mgr.holds = true
  session : ∀ i, s.lock = some (.session i) ↔ (s.sess i).pc.holds = true
  svec : s.svec.Nodup
  listed : ∀ i ∈ s.svec, (s.sess i).pc.listed = true
  cid : ∀ i, (s.sess i).pc ≠ .unborn → (s.sess i).cid ≠ 0
  ok : ∀ i, (s.sess i).Ok
  names : ∀ i ∈ s.mgr.names, i ∈ s.svec
  todo : s.mgr.todo.Nodup
  due : ∀ i, (s.sess i).isOpen = true → s.mgr.toRead i ≤ (s.sess i).due
  listing : s.mgr ≠ .wantSessions ∧ s.mgr ≠ .sessions

variable {s t : ProxyState} {a : ProxyAct} {i : ℕ} {x y : Sess}

theorem sess_setSess (s : ProxyState) (i : ℕ) (x : Sess) : (s.setSess i x).sess i = x :=
  Function.update_self _ _ _

theorem sess_setSess_ne (s : ProxyState) {i j : ℕ} (x : Sess) (h : j ≠ i) :
    (s.setSess i x).sess j = s.sess j :=
  Function.update_of_ne h _ _

/-- A step of a session leaves the manager what it waits for. -/
theorem LockInv.setSess (h : s.LockInv) (hl : (s.sess i).Later x) : (s.setSess i x).LockInv := by
  have hsess : ∀ j, (s.sess j).Later ((s.setSess i x).sess j) := by
    intro j
    by_cases hj : j = i
    · rw [hj, sess_setSess]
      exact hl
    · rw [sess_setSess_ne s x hj]
      exact .refl _
  refine ⟨h.manager, fun j => ?_, h.svec, fun j hj => ?_, fun j hj => ?_, fun j => (hsess j).ok (h.ok j),
    h.names, h.todo, fun j hj => ?_, h.listing⟩
  · rw [(hsess j).holds]
    exact h.session j
  · rw [(hsess j).listed]
    exact h.listed j hj
  · rw [(hsess j).cid]
    exact h.cid j ((hsess j).born hj)
  · obtain ⟨ho, hd⟩ := (hsess j).due hj
    exact Nat.le_trans (h.due j ho) hd

theorem LockInv.deleteSlave (h : s.LockInv) (i : ℕ) : (s.deleteSlave i).LockInv := by
  unfold ProxyState.deleteSlave
  split
  · exact h
  · next j _ =>
    have hj := h.setSess (i := j) (x := { (s.sess j).close with deleted := true })
      ((s.sess j).later_close.trans (.of_same rfl rfl rfl rfl rfl rfl))
    exact hj.setSess (.of_same rfl rfl rfl rfl rfl rfl)

/-- The object of the observer is closed, and the session keeps its ends of the pipes as they are. -/
theorem isOpen_deleteSlave (hopen : (s.sess i).isOpen = false) :
    ((s.deleteSlave i).sess i).isOpen = false := by
  unfold ProxyState.deleteSlave
  split
  · exact hopen
  · next j _ =>
    rw [sess_setSess]
    show ((s.setSess j _).sess i).isOpen = false
    by_cases hj : i = j
    · rw [hj, sess_setSess]
      rw [hj] at hopen
      show (s.sess j).close.isOpen = false
      unfold Sess.close
      split
      · exact hopen
      · rfl
    · rw [sess_setSess_ne _ _ hj]
      exact hopen

theorem LockInv.closeSession (h : s.LockInv) (i : ℕ) : (s.closeSession i).LockInv := by
  have hclose := h.setSess (i := i) (s.sess i).later_close
  unfold ProxyState.closeSession
  simp only
  split
  · split
    · exact hclose
    · split
      · exact hclose.setSess (.of_same rfl rfl rfl rfl rfl rfl)
      · exact hclose
  · exact hclose

theorem LockInv.cmdHandler (h : s.LockInv) (hpc : (s.sess i).pc = .run) {valid : Bool}
    (hs : s.cmdHandler i valid = some t) : t.LockInv := by
  unfold ProxyState.cmdHandler at hs
  simp only at hs
  split at hs
  · cases hs
  next c l hl =>
  cases c with
  | shutdown =>
    cases hs
    exact h.setSess ((Sess.later_pop hl rfl).trans (Sess.later_close _))
  | closeConn a =>
    cases hs
    refine h.setSess ((Sess.later_pop hl rfl).trans ?_)
    split
    · exact .refl _
    · exact Sess.later_close _
  | slave sid =>
    cases hs
    unfold ProxyState.doSlave
    split
    · next hz =>
      exact h.setSess (Sess.later_pop hl (by rw [SessionCmd.asks, hz]; rfl))
    · next hz => exact h.setSess (Sess.later_slave hl hz hpc rfl rfl rfl rfl rfl rfl)
  | slaveResp a sid =>
    cases hs
    exact h.setSess (Sess.later_pop hl rfl)
  | master a =>
    cases hs
    exact h.setSess (Sess.later_pop hl rfl)
  | masterResp res =>
    cases hs
    exact h.setSess ((Sess.later_pop hl rfl).trans (Sess.later_masterResp _ res))

/-- The manager goes on without taking the lock or giving it back, and reads no message it did not count. -/
theorem LockInv.setMgr (h : s.LockInv) {pc : MgrPc} (hholds : pc.holds = s.mgr.holds)
    (hnames : ∀ j ∈ pc.names, j ∈ s.svec) (htodo : pc.todo.Nodup)
    (hdue : ∀ j, (s.sess j).isOpen = true → pc.toRead j ≤ (s.sess j).due)
    (hlist : pc ≠ .wantSessions ∧ pc ≠ .sessions) : LockInv { s with mgr := pc } :=
  ⟨by rw [hholds]; exact h.manager, h.session, h.svec, h.listed, h.cid, h.ok, hnames, htodo, hdue, hlist⟩

/-- The manager has read the pipe of a session. -/
theorem LockInv.readPipe (h : s.LockInv) {l : List SessionCmd} {rcfd : Bool} {pc : MgrPc}
    (hholds : pc.holds = s.mgr.holds) (hnames : ∀ j ∈ pc.names, j ∈ s.svec) (htodo : pc.todo.Nodup)
    (hdue : ∀ j, j ≠ i → pc.toRead j ≤ s.mgr.toRead j)
    (hself : (s.sess i).isOpen = true →
      pc.toRead i ≤ l.length + (s.sess i).toSess.countP SessionCmd.asks + (s.sess i).pc.answers)
    (hlist : pc ≠ .wantSessions ∧ pc ≠ .sessions) :
    LockInv { s.setSess i { s.sess i with toMgr := l, rcfd := rcfd } with mgr := pc } := by
  have hsess : ∀ j, j ≠ i → (s.setSess i { s.sess i with toMgr := l, rcfd := rcfd }).sess j = s.sess j :=
    fun j hj => sess_setSess_ne s _ hj
  have hpc : ∀ j, ((s.setSess i { s.sess i with toMgr := l, rcfd := rcfd }).sess j).pc =
      (s.sess j).pc := by
    intro j
    by_cases hj : j = i
    · rw [hj, sess_setSess]
    · rw [hsess j hj]
  refine ⟨by rw [hholds]; exact h.manager, fun j => ?_, h.svec, fun j hj => ?_, fun j hj => ?_, fun j => ?_,
    hnames, htodo, fun j hj => ?_, hlist⟩
  · rw [show ((_ : ProxyState).sess j).pc = _ from hpc j]
    exact h.session j
  · rw [show ((_ : ProxyState).sess j).pc = _ from hpc j]
    exact h.listed j hj
  · rw [show ((_ : ProxyState).sess j).pc = _ from hpc j] at hj
    have hc := h.cid j hj
    show ((s.setSess i { s.sess i with toMgr := l, rcfd := rcfd }).sess j).cid ≠ 0
    by_cases hji : j = i
    · rw [hji] at hc ⊢
      rw [sess_setSess]
      exact hc
    · rw [hsess j hji]
      exact hc
  · show ((s.setSess i { s.sess i with toMgr := l, rcfd := rcfd }).sess j).Ok
    by_cases hji : j = i
    · rw [hji, sess_setSess]
      exact ⟨(h.ok i).closing, (h.ok i).ended⟩
    · rw [hsess j hji]
      exact h.ok j
  · have hj' : ((s.setSess i { s.sess i with toMgr := l, rcfd := rcfd }).sess j).isOpen = true := hj
    show pc.toRead j ≤ ((s.setSess i { s.sess i with toMgr := l, rcfd := rcfd }).sess j).due
    by_cases hji : j = i
    · rw [hji] at hj' ⊢
      rw [sess_setSess] at hj' ⊢
      exact hself hj'
    · rw [hsess j hji] at hj' ⊢
      exact Nat.le_trans (hdue j hji) (h.due j hj')

theorem LockInv.due_le (h : s.LockInv) {pc : MgrPc} (hle : ∀ j, pc.toRead j ≤ s.mgr.toRead j) :
    ∀ j, (s.sess j).isOpen = true → pc.toRead j ≤ (s.sess j).due :=
  fun j ho => Nat.le_trans (hle j) (h.due j ho)

theorem toRead_tail (todo : List ℕ) (i j : ℕ) :
    (MgrPc.scan todo).toRead j ≤ (MgrPc.scan (i :: todo)).toRead j := by
  show (if j ∈ todo then 1 else 0) ≤ if j ∈ i :: todo then 1 else 0
  split
  · next hj =>
    apply Nat.le_of_eq
    rw [if_pos (List.mem_cons_of_mem i hj)]
  · exact Nat.zero_le _

/-- The manager takes the lock. -/
theorem LockInv.takes (h : s.LockInv) (hfree : s.lock = none) {pc : MgrPc} (hholds : pc.holds = true)
    (hnames : ∀ j ∈ pc.names, j ∈ s.svec) (htodo : pc.todo.Nodup)
    (hdue : ∀ j, pc.toRead j ≤ s.mgr.toRead j) (hlist : pc ≠ .wantSessions ∧ pc ≠ .sessions) :
    LockInv { s with lock := some .manager, mgr := pc } := by
  refine ⟨⟨fun _ => hholds, fun _ => rfl⟩, fun j => ?_, h.svec, h.listed, h.cid, h.ok, hnames, htodo,
    h.due_le hdue, hlist⟩
  have hj := h.session j
  rw [hfree] at hj
  exact ⟨nofun, fun hp => nomatch hj.mpr hp⟩

/-- The manager gives the lock back. -/
theorem LockInv.gives (h : s.LockInv) (hholds : s.mgr.holds = true) (pc : MgrPc)
    (hpc : pc = .select ∨ pc = .wait ∨ pc = .off) : LockInv { s with lock := none, mgr := pc } := by
  have hl := h.manager.mpr hholds
  have hidle : pc.holds = false ∧ pc.names = [] ∧ pc.todo = [] ∧ ∀ j, pc.toRead j = 0 := by
    obtain rfl | rfl | rfl := hpc <;> exact ⟨rfl, rfl, rfl, fun _ => rfl⟩
  obtain ⟨hh, hn, ht, hr⟩ := hidle
  refine ⟨⟨nofun, fun hc => ?_⟩, fun j => ?_, h.svec, h.listed, h.cid, h.ok, fun j hj => ?_, ?_,
    fun j _ => ?_, ?_⟩
  · rw [show pc.holds = true from hc] at hh
    cases hh
  · have hj := h.session j
    rw [hl] at hj
    exact ⟨nofun, fun hp => nomatch hj.mpr hp⟩
  · rw [show MgrPc.names _ = _ from hn] at hj
    cases hj
  · rw [show MgrPc.todo _ = _ from ht]
    exact List.nodup_nil
  · rw [show MgrPc.toRead j _ = _ from hr j]
    exact Nat.zero_le _
  · obtain rfl | rfl | rfl := hpc <;> exact ⟨nofun, nofun⟩

/-- A session and the lock change, or the vector with them. -/
theorem LockInv.setLock (h : s.LockInv) {l : Option Thread} {v : List ℕ}
    (hmgr : l = some .manager ↔ s.mgr.holds = true)
    (hself : l = some (.session i) ↔ x.pc.holds = true)
    (hother : ∀ j, j ≠ i → (l = some (.session j) ↔ (s.sess j).pc.holds = true))
    (hv : v.Nodup) (hsub : ∀ j ∈ v, j ≠ i → j ∈ s.svec) (hlisted : i ∈ v → x.pc.listed = true)
    (hnames : ∀ j ∈ s.mgr.names, j ∈ v) (hcid : x.cid ≠ 0) (hok : x.Ok)
    (hdue : x.isOpen = true → s.mgr.toRead i ≤ x.due) :
    LockInv { s.setSess i x with lock := l, svec := v } := by
  have hsess : ∀ j, j ≠ i → (s.setSess i x).sess j = s.sess j := fun j hj => sess_setSess_ne s x hj
  have hx : (s.setSess i x).sess i = x := sess_setSess s i x
  refine ⟨hmgr, fun j => ?_, hv, fun j hj => ?_, fun j hj => ?_, fun j => ?_, hnames, h.todo,
    fun j hj => ?_, h.listing⟩
  · show _ ↔ ((s.setSess i x).sess j).pc.holds = true
    by_cases hji : j = i
    · rw [hji, hx]
      exact hself
    · rw [hsess j hji]
      exact hother j hji
  · show ((s.setSess i x).sess j).pc.listed = true
    by_cases hji : j = i
    · rw [hji, hx]
      exact hlisted (hji ▸ hj)
    · rw [hsess j hji]
      exact h.listed j (hsub j hj hji)
  · have hj' : ((s.setSess i x).sess j).pc ≠ .unborn := hj
    show ((s.setSess i x).sess j).cid ≠ 0
    by_cases hji : j = i
    · rw [hji, hx]
      exact hcid
    · rw [hsess j hji] at hj' ⊢
      exact h.cid j hj'
  · show ((s.setSess i x).sess j).Ok
    by_cases hji : j = i
    · rw [hji, hx]
      exact hok
    · rw [hsess j hji]
      exact h.ok j
  · have hj' : ((s.setSess i x).sess j).isOpen = true := hj
    show s.mgr.toRead j ≤ ((s.setSess i x).sess j).due
    by_cases hji : j = i
    · rw [hji, hx] at hj' ⊢
      exact hdue hj'
    · rw [hsess j hji] at hj' ⊢
      exact h.due j hj'

theorem MgrPc.names_eq_nil {pc : MgrPc} (h : pc.holds = false) : pc.names = [] := by
  cases pc <;> first | rfl | cases h

/-- A session with the lock has it alone. -/
theorem LockInv.alone (h : s.LockInv) (hi : (s.sess i).pc.holds = true) :
    s.mgr.holds = false ∧ ∀ j, j ≠ i → (s.sess j).pc.holds = false := by
  have hl := (h.session i).mpr hi
  refine ⟨?_, fun j hj => ?_⟩
  · cases hm : s.mgr.holds with
    | false => rfl
    | true =>
      rw [h.manager.mpr hm] at hl
      cases hl
  · cases hs : (s.sess j).pc.holds with
    | false => rfl
    | true =>
      rw [(h.session j).mpr hs] at hl
      cases hl
      exact absurd rfl hj

/-! ### The steps of the manager -/

theorem LockInv.select (h : s.LockInv) {e : MgrEvent} (he : NoListing (.select e))
    (hs : s.step (.select e) = some t) : t.LockInv := by
  simp only [ProxyState.step] at hs
  split at hs
  swap
  · cases hs
  next hpc =>
  cases e with
  | getSessions => exact he.elim
  | client =>
    cases hs
    exact h.setMgr (by rw [hpc]; rfl) nofun List.nodup_nil (fun j _ => Nat.zero_le _) ⟨nofun, nofun⟩
  | control c =>
    cases hs
    exact h.setMgr (by rw [hpc]; rfl) nofun List.nodup_nil (fun j _ => Nat.zero_le _) ⟨nofun, nofun⟩
  | term =>
    cases hs
    exact h.setMgr (by rw [hpc]; rfl) nofun List.nodup_nil (fun j _ => Nat.zero_le _) ⟨nofun, nofun⟩
  | sessions =>
    cases hs
    refine h.setMgr (by rw [hpc]; rfl) nofun List.nodup_nil (fun j ho => ?_) ⟨nofun, nofun⟩
    show (if j ∈ s.svec.filter fun i => (s.sess i).ready then 1 else 0) ≤ (s.sess j).due
    split
    · next hj =>
      -- an open pipe is ready only with a message on it
      have hready := (List.mem_filter.mp hj).2
      rw [Sess.ready, ho, Bool.and_eq_true] at hready
      have hmsg : (s.sess j).toMgr ≠ [] := by
        rintro hnil
        rw [hnil] at hready
        cases hready.2
      have hpos := List.length_pos_iff.mpr hmsg
      rw [Sess.due]
      omega
    · exact Nat.zero_le _

theorem LockInv.recvFromSess (h : s.LockInv) {todo : List ℕ} (hpc : s.mgr = .scan (i :: todo))
    (hs : s.recvFromSess i todo = some t) : t.LockInv := by
  have hnames : ∀ j ∈ i :: todo, j ∈ s.svec := by
    have hn := h.names
    rwa [hpc] at hn
  have hnodup : (i :: todo).Nodup := by
    have ht := h.todo
    rwa [hpc] at ht
  have hfresh : i ∉ todo := (List.nodup_cons.mp hnodup).1
  have hrest : ∀ j ∈ todo, j ∈ s.svec := fun j hj => hnames j (List.mem_cons_of_mem i hj)
  have hle : ∀ j, (MgrPc.scan todo).toRead j ≤ s.mgr.toRead j := by
    intro j
    rw [hpc]
    exact toRead_tail todo i j
  have hzero : (MgrPc.scan todo).toRead i = 0 := if_neg hfresh
  have hscan : ∀ (l : List SessionCmd) (rcfd : Bool) (pc : MgrPc), pc.holds = true → pc.todo = todo →
      (∀ j ∈ pc.names, j ∈ i :: todo) → (∀ j, pc.toRead j = (MgrPc.scan todo).toRead j) →
      pc ≠ .wantSessions ∧ pc ≠ .sessions →
      LockInv { s.setSess i { s.sess i with toMgr := l, rcfd := rcfd } with mgr := pc } := by
    intro l rcfd pc hh ht hn hr hlist
    refine h.readPipe (by rw [hpc]; exact hh) (fun j hj => hnames j (hn j hj)) ?_ (fun j _ => ?_)
      (fun _ => ?_) hlist
    · rw [ht]
      exact (List.nodup_cons.mp hnodup).2
    · rw [hr]
      exact hle j
    · rw [hr, hzero]
      exact Nat.zero_le _
  have hback : ∀ (l : List SessionCmd) (rcfd : Bool),
      LockInv { s.setSess i { s.sess i with toMgr := l, rcfd := rcfd } with mgr := .scan todo } :=
    fun l rcfd => hscan l rcfd (.scan todo) rfl rfl (fun j hj => List.mem_cons_of_mem i hj) (fun _ => rfl)
      ⟨nofun, nofun⟩
  unfold ProxyState.recvFromSess at hs
  simp only at hs
  split at hs
  · cases hs
    have ht := h.setSess (i := i) (Sess.later_tell (s.sess i) .shutdown)
    exact ht.setMgr (by rw [show (s.setSess _ _).mgr = _ from hpc]; rfl) hrest (List.nodup_cons.mp hnodup).2
      (ht.due_le hle) ⟨nofun, nofun⟩
  · split at hs
    · next c l hl =>
      cases c with
      | master sid =>
        cases hs
        split
        · exact hback l _
        · exact hscan l _ (.master i sid todo) rfl rfl (fun j hj => hj) (fun _ => rfl) ⟨nofun, nofun⟩
      | shutdown => cases hs; exact hback l _
      | closeConn a => cases hs; exact hback l _
      | slave a => cases hs; exact hback l _
      | slaveResp a sid => cases hs; exact hback l _
      | masterResp a => cases hs; exact hback l _
    · split at hs
      · cases hs
      · cases hs
        exact hback _ false

theorem getSession_mem {sid m : ℕ} (hm : s.getSession sid = some m) :
    m ∈ s.svec ∧ (s.sess m).cid = sid := by
  have hcid := List.find?_some hm
  exact ⟨List.mem_of_find?_eq_some hm, of_decide_eq_true hcid⟩

theorem LockInv.doMaster (h : s.LockInv) {sid : ℕ} {todo : List ℕ} (hpc : s.mgr = .master i sid todo) :
    (s.doMaster i sid todo).LockInv := by
  have hnames : ∀ j ∈ i :: todo, j ∈ s.svec := by
    have hn := h.names
    rwa [hpc] at hn
  have hnodup : todo.Nodup := by
    have ht := h.todo
    rwa [hpc] at ht
  have hreply : ∀ res own, LockInv { s with mgr := .reply i res own todo } := fun res own =>
    h.setMgr (by rw [hpc]; rfl) hnames hnodup (h.due_le fun j => by rw [hpc]; exact Nat.le_refl _)
      ⟨nofun, nofun⟩
  unfold ProxyState.doMaster
  split
  · exact hreply _ _
  · next m hm =>
    split
    swap
    · exact hreply _ _
    next hopen =>
    have hmem := (getSession_mem hm).1
    -- the session that asks is in the vector, so the question names it and is answered
    have hasks : (SessionCmd.slave (s.sess i).cid).asks = true := by
      refine decide_eq_true (h.cid i fun hu => ?_)
      have hl := h.listed i (hnames i List.mem_cons_self)
      rw [hu] at hl
      cases hl
    have htell := h.setSess (i := m) (Sess.later_tell (s.sess m) (.slave (s.sess i).cid))
    have hdue : ((s.sess m).tell (.slave (s.sess i).cid)).due = (s.sess m).due + 1 := by
      rw [Sess.tell, if_pos hopen, Sess.due, Sess.due]
      show (s.sess m).toMgr.length + ((s.sess m).toSess ++ [_]).countP _ + (s.sess m).pc.answers = _
      rw [List.countP_append, List.countP_singleton, if_pos hasks]
      omega
    refine htell.setMgr (by rw [show (s.setSess _ _).mgr = _ from hpc]; rfl) (fun j hj => ?_) hnodup
      (fun j ho => ?_) ⟨nofun, nofun⟩
    · rcases List.mem_cons.mp hj with rfl | hj
      · exact hnames j List.mem_cons_self
      · rcases List.mem_cons.mp hj with rfl | hj
        · exact hmem
        · exact hnames j (List.mem_cons_of_mem i hj)
    · show (if j ∈ todo then 1 else 0) + (if j = m then 1 else 0) ≤ _
      by_cases hjm : j = m
      · rw [hjm, sess_setSess, hdue, if_pos rfl]
        have hd := h.due m hopen
        rw [hpc] at hd
        exact Nat.add_le_add_right hd 1
      · rw [sess_setSess_ne _ _ hjm] at ho ⊢
        rw [if_neg hjm]
        have hd := h.due j ho
        rw [hpc] at hd
        exact hd

theorem LockInv.readAnswer (h : s.LockInv) {m : ℕ} {todo : List ℕ} (hpc : s.mgr = .await i m todo)
    (hs : s.readAnswer i m todo = some t) : t.LockInv := by
  have hnames : ∀ j ∈ i :: todo, j ∈ s.svec := by
    have hn := h.names
    rw [hpc] at hn
    intro j hj
    rcases List.mem_cons.mp hj with rfl | hj
    · exact hn j List.mem_cons_self
    · exact hn j (List.mem_cons_of_mem i (List.mem_cons_of_mem m hj))
  have hnodup : todo.Nodup := by
    have ht := h.todo
    rwa [hpc] at ht
  have hle : ∀ res own j, (MgrPc.reply i res own todo).toRead j ≤ s.mgr.toRead j := by
    intro res own j
    rw [hpc]
    exact Nat.le_add_right _ _
  have hreply : ∀ res own, LockInv { s with mgr := .reply i res own todo } := fun res own =>
    h.setMgr (by rw [hpc]; rfl) hnames hnodup (h.due_le (hle res own)) ⟨nofun, nofun⟩
  unfold ProxyState.readAnswer at hs
  simp only at hs
  split at hs
  · cases hs
    exact hreply _ _
  · split at hs
    · next c l hl =>
      cases hs
      refine h.readPipe (by rw [hpc]; rfl) hnames hnodup (fun j _ => hle _ _ j) (fun ho => ?_)
        ⟨nofun, nofun⟩
      have hd := h.due m ho
      rw [hpc, Sess.due, hl] at hd
      rw [MgrPc.toRead, if_pos rfl, List.length_cons] at hd
      rw [MgrPc.toRead]
      omega
    · split at hs
      · cases hs
      · cases hs
        exact hreply _ _

/-- The manager takes the lock. -/
theorem LockInv.lockManager (h : s.LockInv) (hfree : s.lock = none) (hs : s.takeLock .manager = some t) :
    t.LockInv := by
  have hnil : ∀ j, 0 ≤ s.mgr.toRead j := fun j => Nat.zero_le _
  simp only [ProxyState.takeLock] at hs
  split at hs
  · cases hs
    exact h.takes hfree rfl nofun List.nodup_nil hnil ⟨nofun, nofun⟩
  · next ready hpc =>
    cases hs
    refine h.takes hfree rfl (fun j hj => (List.mem_filter.mp hj).1) (h.svec.filter _) (fun j => ?_)
      ⟨nofun, nofun⟩
    rw [hpc]
    show (if j ∈ s.svec.filter fun i => i ∈ ready then 1 else 0) ≤ if j ∈ ready then 1 else 0
    split
    · next hj =>
      apply Nat.le_of_eq
      rw [if_pos (of_decide_eq_true (List.mem_filter.mp hj).2)]
    · exact Nat.zero_le _
  · next hpc => exact absurd hpc h.listing.1
  · cases hs
    exact h.takes hfree rfl nofun List.nodup_nil hnil ⟨nofun, nofun⟩
  · cases hs
    exact h.takes hfree rfl nofun List.nodup_nil hnil ⟨nofun, nofun⟩
  · cases hs
    exact h.takes hfree rfl nofun List.nodup_nil hnil ⟨nofun, nofun⟩
  · cases hs

/-! ### The steps of the sessions -/

/-- A session takes the lock. -/
theorem LockInv.lockSession (h : s.LockInv) (hfree : s.lock = none)
    (hs : s.takeLock (.session i) = some t) : t.LockInv := by
  have hmgr : s.mgr.holds = false := by
    cases hm : s.mgr.holds with
    | false => rfl
    | true =>
      rw [h.manager.mpr hm] at hfree
      cases hfree
  have hother : ∀ j, j ≠ i → (some (Thread.session i) = some (.session j) ↔ (s.sess j).pc.holds = true) := by
    intro j hj
    refine ⟨fun he => ?_, fun hp => ?_⟩
    · cases he
      exact absurd rfl hj
    · rw [(h.session j).mpr hp] at hfree
      cases hfree
  have hadvance : ∀ pc : SessPc, pc.holds = true → (i ∈ s.svec → pc.listed = true) →
      (s.sess i).pc ≠ .unborn → (s.sess i).pc.answers = 0 →
      ((s.sess i).pc = .ending ∨ pc = .adding) →
      LockInv { s.setSess i { s.sess i with pc := pc } with lock := some (.session i) } := by
    intro pc hh hl hborn ha he
    refine h.setLock ⟨nofun, fun hc => ?_⟩ ⟨fun _ => hh, fun _ => rfl⟩ hother h.svec (fun j hj _ => hj)
      hl h.names (h.cid i hborn) ⟨(h.ok i).closing, fun hend => ?_⟩ (fun ho => ?_)
    · rw [hmgr] at hc
      cases hc
    · obtain he | he := he
      · exact (h.ok i).ended (.inl he)
      · obtain hend | hend | hend := hend <;> exact absurd (he.symm.trans hend) nofun
    · have hd := h.due i ho
      rw [Sess.due, ha] at hd
      show _ ≤ _ + _ + pc.answers
      exact Nat.le_trans hd (Nat.le_add_right _ _)
  simp only [ProxyState.takeLock] at hs
  split at hs
  · next hpc =>
    cases hs
    refine hadvance .adding rfl (fun hi => ?_) (by rw [hpc]; nofun) (by rw [hpc]; rfl) (.inr rfl)
    have hl := h.listed i hi
    rw [hpc] at hl
    cases hl
  · next hpc =>
    cases hs
    exact hadvance .leaving rfl (fun _ => rfl) (by rw [hpc]; nofun) (by rw [hpc]; rfl) (.inl hpc)
  · cases hs

theorem LockInv.added (h : s.LockInv) (hpc : (s.sess i).pc = .adding) :
    LockInv { s.setSess i { s.sess i with pc := .run } with lock := none, svec := s.svec ++ [i] } := by
  obtain ⟨hmgr, hother⟩ := h.alone (i := i) (by rw [hpc]; rfl)
  have hnew : i ∉ s.svec := fun hi => by
    have hl := h.listed i hi
    rw [hpc] at hl
    cases hl
  refine h.setLock ⟨nofun, fun hc => ?_⟩ ⟨nofun, nofun⟩ (fun j hj => ⟨nofun, fun hc => ?_⟩) ?_ (fun j hj hne => ?_)
    (fun _ => rfl) (fun j hj => ?_) (h.cid i (by rw [hpc]; nofun)) ⟨(h.ok i).closing, nofun⟩ (fun ho => ?_)
  · rw [hmgr] at hc
    cases hc
  · rw [hother j hj] at hc
    cases hc
  · exact List.nodup_append.mpr ⟨h.svec, List.nodup_singleton i, fun a ha b hb hab => by
      rw [List.mem_singleton.mp hb] at hab
      exact hnew (hab ▸ ha)⟩
  · obtain hj | hj := List.mem_append.mp hj
    · exact hj
    · exact absurd (List.mem_singleton.mp hj) hne
  · rw [MgrPc.names_eq_nil hmgr] at hj
    cases hj
  · have hd := h.due i ho
    rw [Sess.due, hpc] at hd
    exact hd

theorem LockInv.removed (h : s.LockInv) (hpc : (s.sess i).pc = .leaving) {d : Bool} :
    LockInv { s.setSess i { s.sess i with pc := .done, deleted := d } with
      lock := none, svec := s.svec.erase i } := by
  obtain ⟨hmgr, hother⟩ := h.alone (i := i) (by rw [hpc]; rfl)
  have hclosed := (h.ok i).ended (.inr (.inl hpc))
  refine h.setLock ⟨nofun, fun hc => ?_⟩ ⟨nofun, nofun⟩ (fun j hj => ⟨nofun, fun hc => ?_⟩)
    (h.svec.erase i) (fun j hj _ => List.mem_of_mem_erase hj) (fun hi => absurd hi (h.svec.not_mem_erase))
    (fun j hj => ?_) (h.cid i (by rw [hpc]; nofun)) ⟨fun _ => hclosed, fun _ => hclosed⟩ (fun ho => ?_)
  · rw [hmgr] at hc
    cases hc
  · rw [hother j hj] at hc
    cases hc
  · rw [MgrPc.names_eq_nil hmgr] at hj
    cases hj
  · rw [show (s.sess i).isOpen = true from ho] at hclosed
    cases hclosed

theorem LockInv.mkSession (h : s.LockInv) {cid : ℕ} (hpc : (s.sess i).pc = .unborn) (hcid : cid ≠ 0)
    (hmgr : s.mgr = .select) : LockInv (s.setSess i { cid := cid, pc := .start }) := by
  have hl := h.session i
  rw [hpc] at hl
  refine h.setLock (x := { cid := cid, pc := .start }) h.manager ⟨fun he => ?_, nofun⟩ (fun j _ => h.session j)
    h.svec (fun j hj _ => hj) (fun hi => ?_) h.names hcid ⟨nofun, fun he => ?_⟩ (fun _ => ?_)
  · exact nomatch hl.mp he
  · have hlisted := h.listed i hi
    rw [hpc] at hlisted
    cases hlisted
  · obtain he | he | he := he <;> cases he
  · rw [hmgr]
    exact Nat.zero_le _

theorem later_share (x : Sess) (sid : ℕ) : x.Later { x.send (.master sid) with status := .slavePending } := by
  refine ⟨rfl, id, rfl, rfl, fun ho => ⟨ho, ?_⟩, fun hx => ⟨hx.closing, hx.ended⟩⟩
  show x.toMgr.length + x.toSess.countP _ + x.pc.answers ≤
    (x.toMgr ++ [_]).length + x.toSess.countP _ + x.pc.answers
  rw [List.length_append]
  omega

/-- The answer is on the pipe. -/
theorem later_answer {sid res : ℕ} {pc : SessPc} (hpc : x.pc = .answer sid) (hrun : pc = .grant ∨ pc = .run) :
    x.Later { x.send (.slaveResp res sid) with pc := pc } := by
  have hlisted : pc.listed = true ∧ pc.holds = false ∧ pc.answers = 0 := by
    obtain rfl | rfl := hrun <;> exact ⟨rfl, rfl, rfl⟩
  obtain ⟨hl, hh, ha⟩ := hlisted
  refine ⟨rfl, fun _ => by rw [hpc]; nofun, by rw [hpc]; exact hl, by rw [hpc]; exact hh,
    fun ho => ⟨ho, ?_⟩, fun hx => ⟨hx.closing, fun he => ?_⟩⟩
  · show x.toMgr.length + x.toSess.countP _ + x.pc.answers ≤
      (x.toMgr ++ [_]).length + x.toSess.countP _ + pc.answers
    rw [List.length_append, hpc, ha]
    show _ + 1 ≤ x.toMgr.length + 1 + _ + 0
    omega
  · obtain rfl | rfl := hrun <;> obtain he | he | he := he <;> cases he

/-- The session goes on, or ends with its pipes closed. -/
theorem later_pc (pc : SessPc) (hlisted : x.pc.listed = true ∧ pc.listed = true)
    (hholds : x.pc.holds = false ∧ pc.holds = false)
    (hclosed : x.isOpen = false ∨ x.pc.answers = 0 ∧ pc = .run) : x.Later { x with pc := pc } := by
  refine ⟨rfl, fun _ hu => ?_, by rw [hlisted.1]; exact hlisted.2, by rw [hholds.1]; exact hholds.2,
    fun ho => ⟨ho, ?_⟩, fun hx => ⟨hx.closing, fun he => ?_⟩⟩
  · rw [hu] at hlisted
    cases hlisted.1
  · obtain hc | ⟨ha, -⟩ := hclosed
    · rw [show x.isOpen = true from ho] at hc
      cases hc
    · rw [Sess.due, ha]
      exact Nat.le_add_right _ _
  · obtain hc | ⟨-, rfl⟩ := hclosed
    · exact hc
    · obtain he | he | he := he <;> cases he

theorem LockInv.answer (h : s.LockInv) (hs : s.step (.answer i) = some t) : t.LockInv := by
  simp only [ProxyState.step] at hs
  split at hs
  swap
  · cases hs
  next sid hpc =>
  split at hs
  · cases hs
    refine h.setSess (later_answer hpc ?_)
    split
    · exact .inl rfl
    · exact .inr rfl
  · next hclosed =>
    cases hs
    have hslave : (s.sess i).Later { s.sess i with slave := none } := .of_same rfl rfl rfl rfl rfl rfl
    have hclose := hslave.trans (Sess.later_close _)
    have hpc' : (Sess.close { s.sess i with slave := none }).pc = .answer sid := by
      unfold Sess.close
      split
      · exact hpc
      · exact hpc
    refine h.setSess (hclose.trans (later_pc _ ⟨by rw [hpc']; rfl, rfl⟩ ⟨by rw [hpc']; rfl, rfl⟩ (.inl ?_)))
    unfold Sess.close
    split
    · exact Bool.eq_false_iff.mpr hclosed
    · rfl

theorem LockInv.grant (h : s.LockInv) (hs : s.step (.grant i) = some t) : t.LockInv := by
  simp only [ProxyState.step] at hs
  split at hs
  swap
  · cases hs
  next hpc =>
  split at hs
  · cases hs
  next j hj =>
  cases hs
  have hmaster := h.setSess (i := j) (x := { s.sess j with master := some i }) (.of_same rfl rfl rfl rfl rfl rfl)
  refine hmaster.setSess ?_
  have hpc' : ((s.setSess j { s.sess j with master := some i }).sess i).pc = .grant := by
    by_cases hij : i = j
    · rw [← hij, sess_setSess]
      exact hpc
    · rw [sess_setSess_ne _ _ hij]
      exact hpc
  have hrun := later_pc (x := (s.setSess j { s.sess j with master := some i }).sess i) .run
    ⟨by rw [hpc']; rfl, rfl⟩ ⟨by rw [hpc']; rfl, rfl⟩ (.inr ⟨by rw [hpc']; rfl, rfl⟩)
  exact hrun.trans (.of_same rfl rfl rfl rfl rfl rfl)

theorem pc_close (x : Sess) : x.close.pc = x.pc := by
  unfold Sess.close
  split <;> rfl

theorem pc_deleteSlave (s : ProxyState) (i j : ℕ) : ((s.deleteSlave i).sess j).pc = (s.sess j).pc := by
  unfold ProxyState.deleteSlave
  split
  · rfl
  next k _ =>
  have hk : ∀ j, ((s.setSess k { (s.sess k).close with deleted := true }).sess j).pc = (s.sess j).pc := by
    intro j
    by_cases hj : j = k
    · rw [hj, sess_setSess]
      exact pc_close _
    · rw [sess_setSess_ne _ _ hj]
  by_cases hj : j = i
  · rw [hj, sess_setSess]
    exact hk i
  · rw [sess_setSess_ne _ _ hj]
    exact hk j

theorem LockInv.leave (h : s.LockInv) (hs : s.step (.leave i) = some t) : t.LockInv := by
  simp only [ProxyState.step] at hs
  split at hs
  swap
  · cases hs
  next hg =>
  obtain ⟨hpc, -⟩ := hg
  cases hs
  have hclose := h.setSess (i := i) (Sess.later_close (s.sess i))
  have hopen : ((s.setSess i (s.sess i).close).sess i).isOpen = false := by
    have hok := hclose.ok i
    rw [sess_setSess] at hok ⊢
    exact hok.closing (Sess.closing_close _)
  have hrun : ((s.setSess i (s.sess i).close).sess i).pc = .run := by
    rw [sess_setSess, pc_close]
    exact hpc
  have hend : ∀ {u : ProxyState}, u.LockInv → (u.sess i).isOpen = false → (u.sess i).pc = .run →
      (u.setSess i { u.sess i with pc := .ending }).LockInv := by
    intro u hu ho hp
    exact hu.setSess (later_pc _ ⟨by rw [hp]; rfl, rfl⟩ ⟨by rw [hp]; rfl, rfl⟩ (.inl ho))
  split
  · refine hend (hclose.deleteSlave i) (isOpen_deleteSlave hopen) ?_
    rw [pc_deleteSlave]
    exact hrun
  · exact hend hclose hopen hrun

/-! ### Runs -/

theorem LockInv.step (h : s.LockInv) (ha : NoListing a) (hs : s.step a = some t) : t.LockInv := by
  cases a with
  | select e => exact h.select ha hs
  | mkSession i cid made =>
    simp only [ProxyState.step] at hs
    split at hs
    swap
    · cases hs
    next hg =>
    obtain ⟨hpc, hborn, hcid⟩ := hg
    have hgives := h.gives (by rw [hpc]; rfl) .select (.inl rfl)
    cases hs
    split
    · exact hgives.mkSession hborn hcid rfl
    · exact hgives
  | recv =>
    simp only [ProxyState.step] at hs
    split at hs
    · next hpc =>
      cases hs
      exact h.gives (by rw [hpc]; rfl) .select (.inl rfl)
    · next hpc => exact h.recvFromSess hpc hs
    · cases hs
  | askMaster =>
    simp only [ProxyState.step] at hs
    split at hs
    · next hpc =>
      cases hs
      exact h.doMaster hpc
    · cases hs
  | readAnswer =>
    simp only [ProxyState.step] at hs
    split at hs
    · next hpc => exact h.readAnswer hpc hs
    · cases hs
  | sendAnswer =>
    simp only [ProxyState.step] at hs
    split at hs
    · next i res own todo hpc =>
      cases hs
      have htell := h.setSess (i := i) (Sess.later_tell (s.sess i) (.masterResp res))
      refine htell.setMgr (by rw [show (s.setSess _ _).mgr = _ from hpc]; rfl) (fun j hj => ?_) ?_
        (htell.due_le fun j => ?_) ⟨nofun, nofun⟩
      · refine h.names j ?_
        rw [hpc]
        exact List.mem_cons_of_mem i hj
      · have ht := h.todo
        rw [hpc] at ht
        exact ht
      · rw [show (s.setSess _ _).mgr = _ from hpc]
        exact Nat.le_refl _
    · cases hs
  | command target =>
    simp only [ProxyState.step] at hs
    split at hs
    swap
    · cases hs
    next c hpc =>
    have hgives := h.gives (by rw [hpc]; rfl) .select (.inl rfl)
    cases c with
    | remSession sid =>
      simp only at hs
      split at hs
      · cases hs
        exact hgives
      · cases hs
        exact hgives.setSess (Sess.later_tell _ _)
    | remConnection cid =>
      simp only at hs
      split at hs
      · cases hs
        exact hgives
      · split at hs
        · cases hs
          exact hgives.setSess (Sess.later_tell _ _)
        · cases hs
  | tellShutdown timeout =>
    simp only [ProxyState.step] at hs
    split at hs
    · next i todo hpc =>
      cases hs
      have htell := h.setSess (i := i) (Sess.later_tell (s.sess i) .shutdown)
      exact htell.setMgr (by rw [show (s.setSess _ _).mgr = _ from hpc]; rfl) nofun List.nodup_nil
        (fun j _ => Nat.zero_le _) ⟨nofun, nofun⟩
    · next hpc =>
      cases hs
      refine h.gives (by rw [hpc]; rfl) _ ?_
      split
      · exact .inr (.inr rfl)
      · exact .inr (.inl rfl)
    · next hpc =>
      cases hs
      exact h.setMgr (by rw [hpc]; rfl) nofun List.nodup_nil (fun j _ => Nat.zero_le _) ⟨nofun, nofun⟩
    · cases hs
  | lock w =>
    simp only [ProxyState.step] at hs
    split at hs
    · next hfree =>
      cases w with
      | manager => exact h.lockManager hfree hs
      | session i => exact h.lockSession hfree hs
    · cases hs
  | added i =>
    simp only [ProxyState.step] at hs
    split at hs
    · next hpc =>
      cases hs
      exact h.added hpc
    · cases hs
  | share i sid =>
    simp only [ProxyState.step] at hs
    split at hs
    · cases hs
      exact h.setSess (later_share _ sid)
    · cases hs
  | cmd i valid =>
    simp only [ProxyState.step] at hs
    split at hs
    · next hg => exact h.cmdHandler hg.1 hs
    · cases hs
  | answer i => exact h.answer hs
  | grant i => exact h.grant hs
  | close i =>
    simp only [ProxyState.step] at hs
    split at hs
    · cases hs
      exact h.closeSession i
    · cases hs
  | release i =>
    simp only [ProxyState.step] at hs
    split at hs
    · cases hs
      exact h.setSess (.of_same rfl rfl rfl rfl rfl rfl)
    · cases hs
  | dropSlave i =>
    simp only [ProxyState.step] at hs
    split at hs
    · cases hs
      exact h.deleteSlave i
    · cases hs
  | leave i => exact h.leave hs
  | removed i =>
    simp only [ProxyState.step] at hs
    split at hs
    · next hpc =>
      cases hs
      exact h.removed hpc
    · cases hs

instance (a : ProxyAct) : Decidable (NoListing a) :=
  match a with
  | .select .getSessions => isFalse id
  | .select .client | .select .sessions | .select (.control _) | .select .term => isTrue trivial
  | .mkSession .. | .recv | .askMaster | .readAnswer | .sendAnswer | .command _ | .tellShutdown _ | .lock _
  | .added _ | .share .. | .cmd .. | .answer _ | .grant _ | .close _ | .release _ | .dropSlave _ | .leave _
  | .removed _ => isTrue trivial

end ProxyState

end OnlDaemons.Proxy
