import OnlDaemons.Crd.SessionCommit
import OnlDaemons.Lib.Run

/-!
# A cleared session holds nothing

A session is open until it is cleared, and from then on what others hold for it goes down to
nothing. A commit that waits for its requests does not look at the session again, so this holds
only as long as no request comes after the clear.

## Main definitions

- `CrdSession.Orderly` — the steps that keep the sessions apart
- `CrdSession.Inv` — what holds of open and of cleared sessions

## Main result

- `cleared_holds_nothing` — in a run of orderly steps, a cleared session that no thread commits or
  clears holds nothing
-/

namespace OnlDaemons.Crd

open OnlDaemons.Lib

namespace CrdSession

variable {R : Type} {s t : CrdSession R}

/-- A request does not come after the clear, nor does a link ask for a VLAN when those of the
session are gone. The resources are assigned once, and they and the VLANs can be returned. -/
def Orderly (s : CrdSession R) : SessionAct R → Prop
  | .append _ => s.cleared = false
  | .assign _ assigned => assigned = true → s.experiments = 0
  | .giveBack returned => 0 < s.experiments → returned = true
  | .endVlans ended => s.vlans ≠ [] → ended = true
  | .linkVlan _ granted => granted ≠ 0 →
      s.cleared = true → s.lock = .giveBack ∨ s.lock = .endVlans
  | _ => True

/-! ### The invariant -/

/-- What the database has for the session can be returned. -/
def Returnable (s : CrdSession R) : Prop :=
  s.experiments ≤ 1 ∧ (0 < s.experiments → s.reservation = .active)

structure Open (s : CrdSession R) : Prop where
  lock : s.lock ≠ .giveBack ∧ s.lock ≠ .endVlans ∧ s.lock ≠ .remove
  beginReq : s.beginReq ≠ none
  returnable : s.Returnable

structure Closed (s : CrdSession R) : Prop where
  lock : s.lock ≠ .assign ∧ s.lock ≠ .place ∧ s.lock ≠ .allocate
  clusterReqs : s.clusterReqs = []
  componentReqs : s.componentReqs = []
  linkReqs : s.linkReqs = []
  returnable : s.Returnable
  experiments : s.lock ≠ .giveBack → s.experiments = 0
  vlans : s.lock ≠ .giveBack → s.lock ≠ .endVlans → s.vlans = []
  active : s.lock = .free → s.active = []

structure Inv (s : CrdSession R) : Prop where
  active : ∀ c ∈ s.active, c ∈ s.components ∧ c.node.isVirtual = false
  waiting : ∀ w ∈ s.waiting, 0 < w.numReqs
  isOpen : s.cleared = false → s.Open
  isClosed : s.cleared = true → s.Closed

theorem inv_init (numReqs : ℕ) (reservation : ReservationState) :
    (init numReqs reservation : CrdSession R).Inv where
  active _ hc := absurd hc List.not_mem_nil
  waiting _ hw := absurd hw List.not_mem_nil
  isOpen _ := ⟨⟨nofun,nofun,nofun⟩,nofun,⟨Nat.zero_le _,fun h => absurd h (Nat.lt_irrefl 0)⟩⟩
  isClosed hc := by cases hc

theorem Closed.holdsNothing (h : s.Closed) (hlock : s.lock = .free) : s.HoldsNothing where
  experiments := h.experiments (by rw [hlock]; exact nofun)
  vlans := h.vlans (by rw [hlock]; exact nofun) (by rw [hlock]; exact nofun)
  active c _ hc := by
    rw [h.active hlock] at hc
    cases hc
  clusterReqs := h.clusterReqs
  componentReqs := h.componentReqs
  linkReqs := h.linkReqs

/-! ### What the parts of a commit leave alone -/

/-- The components that are placed change nothing but the components. -/
structure Placed (s t : CrdSession R) : Prop where
  cleared : t.cleared = s.cleared
  beginReq : t.beginReq = s.beginReq
  waiting : t.waiting = s.waiting
  reservation : t.reservation = s.reservation
  experiments : t.experiments = s.experiments
  active : (∀ c ∈ s.active, c ∈ s.components ∧ c.node.isVirtual = false) →
    ∀ c ∈ t.active, c ∈ t.components ∧ c.node.isVirtual = false

theorem placed_placeComponent (isAdmin : Bool) (node : R → NodeInfo) (s : CrdSession R) (req : R) :
    Placed s (placeComponent isAdmin node s req) := by
  unfold placeComponent
  split
  · refine ⟨rfl,rfl,rfl,rfl,rfl,fun h c hc => ?_⟩
    exact ⟨List.mem_append_left _ (h c hc).1,(h c hc).2⟩
  · refine ⟨rfl,rfl,rfl,rfl,rfl,fun h c hc => ?_⟩
    dsimp only at hc ⊢
    split at hc
    · exact ⟨List.mem_append_left _ (h c hc).1,(h c hc).2⟩
    · next hv =>
      rcases List.mem_append.mp hc with hc | hc
      · exact ⟨List.mem_append_left _ (h c hc).1,(h c hc).2⟩
      · rw [List.mem_singleton.mp hc]
        exact ⟨List.mem_append_right _ List.mem_cons_self,by simpa using hv⟩

theorem placed_foldl (isAdmin : Bool) (node : R → NodeInfo) (reqs : List R) (s : CrdSession R) :
    Placed s (reqs.foldl (placeComponent isAdmin node) s) := by
  induction reqs generalizing s with
  | nil => exact ⟨rfl,rfl,rfl,rfl,rfl,id⟩
  | cons req reqs ih =>
    have hfirst := placed_placeComponent isAdmin node s req
    have hrest := ih (placeComponent isAdmin node s req)
    exact ⟨hrest.cleared.trans hfirst.cleared,hrest.beginReq.trans hfirst.beginReq,
      hrest.waiting.trans hfirst.waiting,hrest.reservation.trans hfirst.reservation,
      hrest.experiments.trans hfirst.experiments,fun h => hrest.active (hfirst.active h)⟩

theorem placed_place (s : CrdSession R) (testing isAdmin : Bool) (node : R → NodeInfo) :
    Placed s { ((s.placeClusters testing).placeComponents isAdmin node).placeLinks with
      lock := .allocate } := by
  have h := placed_foldl isAdmin node (s.placeClusters testing).componentReqs
    (s.placeClusters testing)
  exact ⟨h.cleared,h.beginReq,h.waiting,h.reservation,h.experiments,h.active⟩

/-! ### Steps -/

/-- A commit goes on only with requests, and there are none after the clear. -/
theorem Inv.awaitReqs (h : s.Inv) {w : WaitingCommit} (hw : s.cleared = true → 0 < w.numReqs) :
    (s.awaitReqs w).Inv := by
  unfold CrdSession.awaitReqs
  split
  · next hfew =>
    split
    · exact h
    · refine ⟨h.active,fun w' hw' => ?_,fun hc => { h.isOpen hc with },
        fun hc => { h.isClosed hc with }⟩
      rcases List.mem_append.mp hw' with hw' | hw'
      · exact h.waiting w' hw'
      · rw [List.mem_singleton.mp hw']
        exact Nat.zero_lt_of_lt hfew
  · next hall =>
    refine ⟨h.active,h.waiting,fun hc => { h.isOpen hc with lock := ⟨nofun,nofun,nofun⟩ },
      fun hc => ?_⟩
    have hcl := h.isClosed hc
    have := hw hc
    simp [numReqsRxed,hcl.clusterReqs,hcl.componentReqs,hcl.linkReqs] at hall
    omega

theorem Inv.append (h : s.Inv) (hopen : s.cleared = false) {req : TopologyReq × R}
    {inFlight : List (TopologyReq × R)} :
    (match req.1 with
      | .component => { s with inFlight := inFlight }.addComponent req.2
      | .cluster => { s with inFlight := inFlight }.addCluster req.2
      | .link => { s with inFlight := inFlight }.addLink req.2).Inv := by
  split
  all_goals
    refine ⟨h.active,h.waiting,fun hc => { h.isOpen hc with },fun hc => ?_⟩
    cases hopen.symm.trans hc

theorem Inv.buildTopology (h : s.Inv) (hopen : s.cleared = false) (accepts : R → Bool) :
    (s.buildTopology accepts).Inv := by
  refine ⟨h.active,h.waiting,fun hc => { h.isOpen hc with },fun hc => ?_⟩
  cases hopen.symm.trans hc

theorem Inv.assignResources (h : s.Inv) (hopen : s.cleared = false) {assigned : Bool}
    (hnone : assigned = true → s.experiments = 0) : (s.assignResources assigned).Inv := by
  unfold CrdSession.assignResources
  split
  · next hassigned =>
    refine ⟨h.active,h.waiting,fun hc => ⟨⟨nofun,nofun,nofun⟩,(h.isOpen hc).beginReq,?_,?_⟩,
      fun hc => ?_⟩
    · exact Nat.le_of_eq (congrArg (· + 1) (hnone hassigned.1))
    · exact fun _ => rfl
    · cases hopen.symm.trans hc
  · refine ⟨h.active,h.waiting,fun hc => { h.isOpen hc with lock := ⟨nofun,nofun,nofun⟩ },
      fun hc => ?_⟩
    cases hopen.symm.trans hc

/-- A commit that has the lock found the session open. -/
theorem Inv.open_of_lock (h : s.Inv)
    (hlock : s.lock = .assign ∨ s.lock = .place ∨ s.lock = .allocate) : s.cleared = false := by
  by_contra hc
  obtain ⟨hassign,hplace,halloc⟩ := (h.isClosed (by simpa using hc)).lock
  rcases hlock with hl | hl | hl
  · exact hassign hl
  · exact hplace hl
  · exact halloc hl

theorem Inv.closed_of_lock (h : s.Inv)
    (hlock : s.lock = .giveBack ∨ s.lock = .endVlans ∨ s.lock = .remove) : s.cleared = true := by
  by_contra hc
  obtain ⟨hgive,hend,hremove⟩ := (h.isOpen (by simpa using hc)).lock
  rcases hlock with hl | hl | hl
  · exact hgive hl
  · exact hend hl
  · exact hremove hl

theorem Inv.place (h : s.Inv) (hlock : s.lock = .place) (testing isAdmin : Bool)
    (node : R → NodeInfo) :
    CrdSession.Inv { ((s.placeClusters testing).placeComponents isAdmin node).placeLinks with
      lock := .allocate } := by
  have hopen := h.open_of_lock (.inr (.inl hlock))
  have hp := placed_place s testing isAdmin node
  refine ⟨hp.active h.active,?_,fun hc => ⟨⟨nofun,nofun,nofun⟩,?_,?_⟩,fun hc => ?_⟩
  · rw [hp.waiting]
    exact h.waiting
  · rw [hp.beginReq]
    exact (h.isOpen hopen).beginReq
  · rw [Returnable,hp.experiments,hp.reservation]
    exact (h.isOpen hopen).returnable
  · rw [hp.cleared] at hc
    cases hopen.symm.trans hc

theorem Inv.clear (h : s.Inv) (hopen : s.cleared = false) :
    CrdSession.Inv { s.failReqs with
      cleared := true
      lock := .giveBack } := by
  refine ⟨h.active,h.waiting,nofun,fun _ => ⟨⟨nofun,nofun,nofun⟩,rfl,rfl,rfl,
    (h.isOpen hopen).returnable,?_,?_,nofun⟩⟩
  · exact fun hne => absurd rfl hne
  · exact fun hne => absurd rfl hne

theorem returnResources_experiments {returned : Bool} (h : s.Returnable)
    (hret : 0 < s.experiments → returned = true) : (s.returnResources returned).experiments = 0 := by
  unfold CrdSession.returnResources
  obtain ⟨hle,hactive⟩ := h
  split
  · dsimp only
    omega
  · next hno =>
    by_contra hne
    have hpos : 0 < s.experiments := Nat.pos_of_ne_zero hne
    exact hno ⟨hret hpos,hactive hpos,hpos⟩

theorem Inv.giveBack (h : s.Inv) (hlock : s.lock = .giveBack) {returned : Bool}
    (hret : 0 < s.experiments → returned = true) :
    CrdSession.Inv { s.returnResources returned with lock := .endVlans } := by
  have hc := h.closed_of_lock (.inl hlock)
  have hcl := h.isClosed hc
  have hzero := returnResources_experiments hcl.returnable hret
  have hframe : (s.returnResources returned).active = s.active ∧
      (s.returnResources returned).components = s.components ∧
      (s.returnResources returned).waiting = s.waiting ∧
      (s.returnResources returned).cleared = s.cleared ∧
      (s.returnResources returned).clusterReqs = s.clusterReqs ∧
      (s.returnResources returned).componentReqs = s.componentReqs ∧
      (s.returnResources returned).linkReqs = s.linkReqs := by
    unfold CrdSession.returnResources
    split <;> exact ⟨rfl,rfl,rfl,rfl,rfl,rfl,rfl⟩
  obtain ⟨hact,hcomps,hwait,hclr,hcluster,hcomp,hlink⟩ := hframe
  refine ⟨?_,?_,fun hno => ?_,fun _ => ⟨⟨nofun,nofun,nofun⟩,hcluster.trans hcl.clusterReqs,
    hcomp.trans hcl.componentReqs,hlink.trans hcl.linkReqs,?_,fun _ => hzero,?_,nofun⟩⟩
  · dsimp only
    rw [hact,hcomps]
    exact h.active
  · dsimp only
    rw [hwait]
    exact h.waiting
  · cases (hclr.trans hc).symm.trans hno
  · refine ⟨?_,fun hpos => ?_⟩
    · dsimp only
      rw [hzero]
      exact Nat.zero_le 1
    · dsimp only at hpos
      rw [hzero] at hpos
      cases hpos
  · exact fun _ hne => absurd rfl hne

theorem Inv.removeComponents [DecidableEq R] (h : s.Inv) (hlock : s.lock = .remove) :
    CrdSession.Inv { s.removeComponents with
      beginReq := none
      lock := .free } := by
  have hc := h.closed_of_lock (.inr (.inr hlock))
  have hcl := h.isClosed hc
  have hempty : s.removeComponents.active = [] := by
    refine List.filter_eq_nil_iff.mpr fun c hc => ?_
    obtain ⟨hm,hv⟩ := h.active c hc
    simp [hm,hv]
  refine ⟨?_,h.waiting,fun hno => ?_,fun _ => ⟨⟨nofun,nofun,nofun⟩,hcl.clusterReqs,hcl.componentReqs,
    hcl.linkReqs,hcl.returnable,fun _ => ?_,fun _ _ => ?_,fun _ => hempty⟩⟩
  · dsimp only
    rw [hempty]
    exact nofun
  · cases hc.symm.trans hno
  · exact hcl.experiments (by rw [hlock]; exact nofun)
  · exact hcl.vlans (by rw [hlock]; exact nofun) (by rw [hlock]; exact nofun)

variable [DecidableEq R]

/-- The steps of the threads of a session and of what it asks. -/
def SessionStep (s : CrdSession R) (a : SessionAct R) (t : CrdSession R) : Prop := s.step a = some t

theorem Inv.step {a : SessionAct R} (h : s.Inv) (hs : SessionStep s a t) (ho : s.Orderly a) :
    t.Inv := by
  unfold SessionStep at hs
  cases a with
  | receive kind req =>
    simp only [CrdSession.step] at hs
    split at hs
    · cases hs
      exact ⟨h.active,h.waiting,fun hc => { h.isOpen hc with },fun hc => { h.isClosed hc with }⟩
    · cases hs
      exact ⟨h.active,h.waiting,fun hc => { h.isOpen hc with },fun hc => { h.isClosed hc with }⟩
  | append i =>
    simp only [CrdSession.step] at hs
    split at hs
    · obtain ⟨req,_,rfl⟩ := Option.map_eq_some_iff.mp hs
      exact h.append ho
    · cases hs
  | commit =>
    simp only [CrdSession.step] at hs
    split at hs
    · split at hs
      · cases hs
        exact h
      · next hopen =>
        obtain ⟨n,_,rfl⟩ := Option.map_eq_some_iff.mp hs
        exact h.awaitReqs fun hc => absurd hc hopen
    · cases hs
  | wake i =>
    simp only [CrdSession.step] at hs
    split at hs
    · obtain ⟨w,hw,rfl⟩ := Option.map_eq_some_iff.mp hs
      have hrest : CrdSession.Inv { s with waiting := s.waiting.eraseIdx i } :=
        ⟨h.active,fun w' hw' => h.waiting w' (List.mem_of_mem_eraseIdx hw'),
          fun hc => { h.isOpen hc with },fun hc => { h.isClosed hc with }⟩
      exact hrest.awaitReqs fun _ => h.waiting w (List.mem_of_getElem? hw)
    · cases hs
  | assign accepts assigned =>
    simp only [CrdSession.step] at hs
    split at hs
    · next hlock =>
      cases hs
      have hopen := h.open_of_lock (.inl hlock)
      exact (h.buildTopology hopen accepts).assignResources hopen ho
    · cases hs
  | place testing isAdmin node =>
    simp only [CrdSession.step] at hs
    split at hs
    · next hlock =>
      cases hs
      exact h.place hlock testing isAdmin node
    · cases hs
  | allocate granted vlan =>
    simp only [CrdSession.step] at hs
    split at hs
    · next hlock =>
      cases hs
      have hopen := h.open_of_lock (.inr (.inr hlock))
      refine ⟨h.active,h.waiting,fun hc => { h.isOpen hc with lock := ⟨nofun,nofun,nofun⟩ },
        fun hc => ?_⟩
      cases hopen.symm.trans hc
    · cases hs
  | clear =>
    simp only [CrdSession.step] at hs
    split at hs
    · split at hs
      · cases hs
        exact h
      · next hopen =>
        cases hs
        exact h.clear (by simpa using hopen)
    · cases hs
  | giveBack returned =>
    simp only [CrdSession.step] at hs
    split at hs
    · next hlock =>
      cases hs
      exact h.giveBack hlock ho
    · cases hs
  | endVlans ended =>
    simp only [CrdSession.step] at hs
    split at hs
    · next hlock =>
      cases hs
      have hc := h.closed_of_lock (.inr (.inl hlock))
      refine ⟨h.active,h.waiting,fun hno => ?_,fun _ => { h.isClosed hc with
        lock := ⟨nofun,nofun,nofun⟩
        experiments := fun _ => (h.isClosed hc).experiments (by rw [hlock]; exact nofun)
        vlans := fun _ _ => ?_
        active := nofun }⟩
      · cases hc.symm.trans hno
      · dsimp only
        split
        · rfl
        · next hend =>
          by_contra hne
          exact hend (ho hne)
    · cases hs
  | remove =>
    simp only [CrdSession.step] at hs
    split at hs
    · next hlock =>
      cases hs
      exact h.removeComponents hlock
    · cases hs
  | linkVlan i granted =>
    simp only [CrdSession.step] at hs
    split at hs
    · split at hs
      · cases hs
        refine ⟨h.active,h.waiting,fun hc => { h.isOpen hc with },fun hc => { h.isClosed hc with
          vlans := fun hgive hend => ?_ }⟩
        have hzero : granted = 0 := by
          by_contra hne
          exact (ho hne hc).elim hgive hend
        dsimp only
        rw [if_pos hzero]
        exact (h.isClosed hc).vlans hgive hend
      · cases hs
    · cases hs
  | deleteVlan vlan =>
    cases hs
    refine ⟨h.active,h.waiting,fun hc => { h.isOpen hc with },fun hc => { h.isClosed hc with
      vlans := fun hgive hend => ?_ }⟩
    dsimp only
    rw [(h.isClosed hc).vlans hgive hend]
    rfl
  | cancelReservation =>
    simp only [CrdSession.step] at hs
    split at hs
    · next hstate =>
      cases hs
      -- a reservation with a running experiment is active
      have hkeep : s.Returnable → CrdSession.Returnable { s with reservation := .cancelled } := by
        refine fun hr => ⟨hr.1,fun hpos => ?_⟩
        have hact := hr.2 hpos
        rcases hstate with he | he <;> cases he.symm.trans hact
      exact ⟨h.active,h.waiting,
        fun hc => { h.isOpen hc with returnable := hkeep (h.isOpen hc).returnable },
        fun hc => { h.isClosed hc with returnable := hkeep (h.isClosed hc).returnable }⟩
    · cases hs

/-- In a run of orderly steps, a cleared session that no thread commits or clears holds nothing. -/
theorem cleared_holds_nothing (numReqs : ℕ) (reservation : ReservationState)
    {tr : List (SessionAct R × CrdSession R)}
    (hr : IsRun SessionStep (init numReqs reservation) tr)
    (ho : EveryStep (fun s a _ => s.Orderly a) (init numReqs reservation) tr) :
    EveryState (fun s => s.cleared = true → s.Idle → s.HoldsNothing)
      (init numReqs reservation) tr := by
  have hall := hr.everyState (P := Inv) (fun s a t h hs ho => h.step hs ho)
    (inv_init numReqs reservation) ho
  exact hall.mono fun s h hc hidle => (h.isClosed hc).holdsNothing hidle.lock

def pcNode : ℕ → NodeInfo := fun _ => ⟨"pc1",false,false⟩

/-- One component, committed and then cleared. -/
def committedAndCleared : List (SessionAct ℕ) :=
  [.receive .component 5,.append 0,.commit,.assign (fun _ => true) true,.place false false pcNode,
    .allocate [3] fun _ => 3,.clear,.giveBack true,.endVlans true,.remove]

theorem committedAndCleared_holds_nothing :
    (lastState (init 1 .pending) (runOf step (init 1 .pending) committedAndCleared)).cleared = true ∧
    EveryStep (fun s a _ => s.Orderly a) (init 1 .pending)
      (runOf step (init 1 .pending) committedAndCleared) ∧
    EveryState (fun s => s.cleared = true → s.Idle → s.HoldsNothing) (init 1 .pending)
      (runOf step (init 1 .pending) committedAndCleared) := by
  have ho : EveryStep (fun s a _ => s.Orderly a) (init 1 .pending)
      (runOf step (init 1 .pending) committedAndCleared) :=
    ⟨trivial,rfl,trivial,fun _ => rfl,trivial,trivial,trivial,fun _ => rfl,fun _ => rfl,trivial,
      trivial⟩
  exact ⟨by decide +kernel,ho,cleared_holds_nothing 1 .pending (isRun_runOf step _ _) ho⟩

/-- The session is cleared while its commit waits for the only request. -/
def clearedWhileWaiting : List (SessionAct ℕ) :=
  [.receive .component 5,.commit,.clear,.giveBack true,.endVlans true,.remove,.append 0,.wake 0,
    .assign (fun _ => true) true,.place false false pcNode,.allocate [3] fun _ => 3]

theorem cleared_session_assigned : ¬ ∀ tr : List (SessionAct ℕ × CrdSession ℕ),
    IsRun SessionStep (init 1 .pending) tr →
      EveryState (fun s => s.cleared = true → s.Idle → s.HoldsNothing) (init 1 .pending) tr := by
  intro h
  have hlast := (h _ (isRun_runOf step _ clearedWhileWaiting)).last (by decide +kernel)
    ⟨by decide +kernel,by decide +kernel⟩
  have hnone := hlast.experiments
  revert hnone
  decide +kernel

end CrdSession

end OnlDaemons.Crd
