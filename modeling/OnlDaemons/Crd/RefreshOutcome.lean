import OnlDaemons.Crd.ComponentLife

/-!
# How a refresh ends

`do_refresh` reboots a node and waits for its up message, calls itself if the dependent node has not come up, and goes
on with the keeboot. A call that fails puts the node into repair and returns; the call it was made from goes on all the
same.

## Main definitions

- `RefreshRound` — what one call of `do_refresh` meets with
- `doRefresh` — the steps of a call and of the calls inside it, and the states they set
- `EndsWell` — it ends, with a node that is free if all steps have succeeded and in repair if not

## Main result

- `doRefresh_endsWell_iff`
-/

namespace OnlDaemons.Crd

/-- The connection, the answer to the refresh message, the up message, the states of the dependent as they are read,
and the same for the keeboot, whose answer has to be fine. -/
structure RefreshRound where
  connected : Bool
  replied : Bool
  up : Bool
  dependent : ℕ → NodeState
  keebootConnected : Bool
  keebootReplied : Bool
  keebootFine : Bool
  keebootUp : Bool

/-- A step for which `do_refresh` puts the node into repair, unless it succeeds, or a call of `set_state`. What is only
warned of is no such step. -/
inductive RefreshEvent
  | step (ok : Bool)
  | set (x : NodeState)
deriving DecidableEq, Repr

namespace RefreshRound

variable (info : CompInfo) (r : RefreshRound)

def down (x : NodeState) : Bool := x = .refreshing || x = .repair

/-- `while((dependent_state == "refreshing" || dependent_state == "repair") && i < 30)`, from the state with the
number `i`. -/
def waitDependent : ℕ → ℕ → NodeState
  | 0, i => Life.dependentState info (r.dependent i)
  | left + 1, i =>
    let x := Life.dependentState info (r.dependent i)
    if down x then waitDependent left (i + 1) else x

/-- The node is refreshed again because of its dependent. -/
def dependentDown : Bool := down (r.waitDependent info 30 0)

/-- The steps before the up message. For a dependent there are only warnings. -/
def contactSteps : List Bool :=
  if info.hasCP && !info.testing && !info.isDependent then [r.connected,r.replied] else []

def keebootSteps : List Bool :=
  if info.keeboot then [r.keebootConnected,r.keebootReplied,r.keebootFine,r.keebootUp] else []

end RefreshRound

/-- `hasCP() && !testing && get_type() != "vm"` -/
def waitsForUp (info : CompInfo) : Bool := info.hasCP && !info.testing && !info.virtual

/-- Steps up to the first that fails. -/
def tries : List Bool → List RefreshEvent
  | [] => []
  | true :: oks => .step true :: tries oks
  | false :: _ => [.step false]

/-- `cleanup_reqs(true)`. As `needs_refresh` is false since `refresh()`, nothing is refreshed. -/
def putInRepair : List RefreshEvent := [.set .repair]

/-- The end of `do_refresh`, where `keebooting_now` is false since it was started by `refresh()`. -/
def setFree : List RefreshEvent := [.set .free]

/-- The call with the number `i`. There is no result if more calls are nested than `fuel` allows for. -/
def doRefresh (info : CompInfo) (o : ℕ → RefreshRound) : ℕ → ℕ → Option (List RefreshEvent)
  | 0, _ => none
  | fuel + 1, i =>
    let r := o i
    let contact := r.contactSteps info
    if !contact.all id then some (tries contact ++ putInRepair)
    else if !waitsForUp info then some (tries contact ++ setFree)
    else if !r.up then some (tries contact ++ [.step false] ++ putInRepair)
    else do
      let nested ← if r.dependentDown info then doRefresh info o fuel (i + 1) else some []
      let keeboot := r.keebootSteps info
      pure (tries contact ++ [.step true] ++ nested ++ tries keeboot ++
        if keeboot.all id then setFree else putInRepair)

/-! ### What should hold -/

def setsOf (l : List RefreshEvent) : List NodeState :=
  l.filterMap fun
    | .set x => some x
    | .step _ => none

/-- Every step has succeeded. -/
def AllOk (l : List RefreshEvent) : Prop := RefreshEvent.step false ∉ l

/-- A node in repair is not set free. -/
def StaysInRepair (l : List NodeState) : Prop := l.Pairwise fun x y => x = .repair → y ≠ .free

def EndsWell (info : CompInfo) (o : ℕ → RefreshRound) : Prop :=
  ∃ fuel l, doRefresh info o fuel 0 = some l ∧
    (AllOk l ∧ (setsOf l).getLast? = some .free ∨ ¬AllOk l ∧ (setsOf l).getLast? = some .repair) ∧
    StaysInRepair (setsOf l)

/-- The call calls `do_refresh` again. -/
def Recurses (info : CompInfo) (r : RefreshRound) : Prop :=
  (r.contactSteps info).all id ∧ waitsForUp info ∧ r.up ∧ r.dependentDown info

/-- A step of the call itself fails. -/
def Fails (info : CompInfo) (r : RefreshRound) : Prop :=
  ¬(r.contactSteps info).all id ∨ waitsForUp info ∧ (¬r.up ∨ ¬(r.keebootSteps info).all id)

variable {info : CompInfo} {o : ℕ → RefreshRound}

/-- The state a call sets at its end. -/
def setAtEnd (info : CompInfo) (r : RefreshRound) : NodeState :=
  if !(r.contactSteps info).all id then .repair
  else if waitsForUp info && (!r.up || !(r.keebootSteps info).all id) then .repair
  else .free

theorem setAtEnd_eq_repair {r : RefreshRound} : setAtEnd info r = .repair ↔ Fails info r := by
  unfold setAtEnd Fails
  cases (r.contactSteps info).all id <;> cases waitsForUp info <;> cases r.up <;>
    cases (r.keebootSteps info).all id <;> simp

theorem setAtEnd_eq_free {r : RefreshRound} : setAtEnd info r = .free ↔ ¬Fails info r := by
  rw [← setAtEnd_eq_repair]
  unfold setAtEnd
  split
  · simp
  · split <;> simp

@[simp] theorem setsOf_append (l l' : List RefreshEvent) : setsOf (l ++ l') = setsOf l ++ setsOf l' :=
  List.filterMap_append

theorem setsOf_tries (oks : List Bool) : setsOf (tries oks) = [] := by
  induction oks with
  | nil => rfl
  | cons ok oks ih =>
    cases ok with
    | false => rfl
    | true => exact ih

theorem allOk_tries (oks : List Bool) : AllOk (tries oks) ↔ oks.all id := by
  unfold AllOk
  induction oks with
  | nil => simp [tries]
  | cons ok oks ih => cases ok <;> simp [tries,ih]

theorem allOk_append (l l' : List RefreshEvent) : AllOk (l ++ l') ↔ AllOk l ∧ AllOk l' := by
  unfold AllOk
  rw [List.mem_append,not_or]

theorem allOk_step_true : AllOk [.step true] := by simp [AllOk]

theorem allOk_step_false : ¬AllOk [.step false] := by simp [AllOk]

theorem allOk_setFree : AllOk setFree := by simp [AllOk,setFree]

theorem allOk_putInRepair : AllOk putInRepair := by simp [AllOk,putInRepair]

/-- The end of a call that gets to the keeboot. -/
theorem end_spec {r : RefreshRound} (hc : (r.contactSteps info).all id = true) (hw : waitsForUp info = true)
    (hu : r.up = true) :
    setsOf (tries (r.keebootSteps info) ++ if (r.keebootSteps info).all id then setFree else putInRepair) =
      [setAtEnd info r] ∧
    (AllOk (tries (r.keebootSteps info) ++ if (r.keebootSteps info).all id then setFree else putInRepair) ↔
      ¬Fails info r) := by
  rw [setsOf_append,setsOf_tries,allOk_append,allOk_tries]
  unfold Fails setAtEnd
  cases hk : (r.keebootSteps info).all id with
  | true => simp [hc,hw,hu,allOk_setFree,show setsOf setFree = [.free] from rfl]
  | false => simp [hc,hw,hu,putInRepair,setsOf]

/-- A call that calls no other. -/
theorem doRefresh_flat (info : CompInfo) (o : ℕ → RefreshRound) (fuel i : ℕ) (h : ¬Recurses info (o i)) :
    ∃ l, doRefresh info o (fuel + 1) i = some l ∧ setsOf l = [setAtEnd info (o i)] ∧
      (AllOk l ↔ ¬Fails info (o i)) := by
  cases hc : ((o i).contactSteps info).all id with
  | false =>
    refine ⟨tries ((o i).contactSteps info) ++ putInRepair,by simp [doRefresh,hc],?_,?_⟩
    · rw [setsOf_append,setsOf_tries]
      simp [setAtEnd,hc,putInRepair,setsOf]
    · rw [allOk_append,allOk_tries]
      simp [Fails,hc]
  | true =>
    cases hw : waitsForUp info with
    | false =>
      refine ⟨tries ((o i).contactSteps info) ++ setFree,by simp [doRefresh,hc,hw],?_,?_⟩
      · rw [setsOf_append,setsOf_tries]
        simp [setAtEnd,hc,hw,setFree,setsOf]
      · rw [allOk_append,allOk_tries]
        simp [Fails,hc,hw,allOk_setFree]
    | true =>
      cases hu : (o i).up with
      | false =>
        refine ⟨tries ((o i).contactSteps info) ++ [.step false] ++ putInRepair,by simp [doRefresh,hc,hw,hu],?_,?_⟩
        · rw [setsOf_append,setsOf_append,setsOf_tries]
          simp [setAtEnd,hc,hw,hu,putInRepair,setsOf]
        · rw [allOk_append,allOk_append]
          simp [Fails,hw,hu,allOk_step_false]
      | true =>
        have hd : (o i).dependentDown info = false :=
          Bool.eq_false_iff.mpr fun hd => h ⟨hc,hw,hu,hd⟩
        obtain ⟨hset,hall⟩ := end_spec hc hw hu
        refine ⟨tries ((o i).contactSteps info) ++ ([.step true] ++ (tries ((o i).keebootSteps info) ++
          if ((o i).keebootSteps info).all id then setFree else putInRepair)),by simp [doRefresh,hc,hw,hu,hd],?_,?_⟩
        · rw [setsOf_append,setsOf_tries]
          exact hset
        · rw [allOk_append,allOk_tries,hc,allOk_append,← hall]
          simp [allOk_step_true]

/-- A call that calls another. -/
theorem doRefresh_nested (fuel i : ℕ) (h : Recurses info (o i)) :
    ∃ before after, setsOf before = [] ∧ setsOf after = [setAtEnd info (o i)] ∧ AllOk before ∧
      (AllOk after ↔ ¬Fails info (o i)) ∧
      doRefresh info o (fuel + 1) i = (doRefresh info o fuel (i + 1)).map fun l => before ++ l ++ after := by
  obtain ⟨hc,hw,hu,hd⟩ := h
  obtain ⟨hset,hall⟩ := end_spec hc hw hu
  refine ⟨tries ((o i).contactSteps info) ++ [.step true],_,?_,hset,?_,hall,?_⟩
  · rw [setsOf_append,setsOf_tries]
    rfl
  · rw [allOk_append,allOk_tries]
    exact ⟨hc,allOk_step_true⟩
  · rw [doRefresh]
    simp only [hc,hw,hu,hd]
    cases doRefresh info o fuel (i + 1) with
    | none => rfl
    | some l => simp [bind,pure]

/-- The calls from number `i` on are nested `j` deep. -/
def Depth (info : CompInfo) (o : ℕ → RefreshRound) (i j : ℕ) : Prop :=
  (∀ k < j, Recurses info (o (i + k))) ∧ ¬Recurses info (o (i + j))

/-- The states that are set, from the inside out. -/
def setsFrom (info : CompInfo) (o : ℕ → RefreshRound) : ℕ → ℕ → List NodeState
  | 0, i => [setAtEnd info (o i)]
  | j + 1, i => setsFrom info o j (i + 1) ++ [setAtEnd info (o i)]

theorem Depth.next {i j : ℕ} (h : Depth info o i (j + 1)) : Recurses info (o i) ∧ Depth info o (i + 1) j := by
  have hshift : ∀ k, i + 1 + k = i + (k + 1) := fun k => by omega
  refine ⟨h.1 0 (Nat.succ_pos j),fun k hk => ?_,?_⟩
  · rw [hshift]
    exact h.1 (k + 1) (Nat.succ_lt_succ hk)
  · rw [hshift]
    exact h.2

/-- With enough fuel the calls return. -/
theorem doRefresh_of_depth {i j : ℕ} (fuel : ℕ) (h : Depth info o i j) :
    ∃ l, doRefresh info o (j + 1 + fuel) i = some l ∧ setsOf l = setsFrom info o j i ∧
      (AllOk l ↔ ∀ k ≤ j, ¬Fails info (o (i + k))) := by
  induction j generalizing i with
  | zero =>
    obtain ⟨l,hl,hset,hall⟩ := doRefresh_flat info o fuel i h.2
    refine ⟨l,?_,hset,hall.trans ?_⟩
    · rw [Nat.add_comm (0 + 1) fuel]
      exact hl
    · simp
  | succ j ih =>
    obtain ⟨hrec,hnext⟩ := h.next
    obtain ⟨l,hl,hset,hall⟩ := ih hnext
    obtain ⟨before,after,hb,ha,hbok,haok,hdo⟩ := doRefresh_nested (j + 1 + fuel) i hrec
    refine ⟨before ++ l ++ after,?_,?_,?_⟩
    · rw [show j + 1 + 1 + fuel = j + 1 + fuel + 1 by omega,hdo,hl]
      rfl
    · rw [setsOf_append,setsOf_append,hb,ha,hset]
      rfl
    · rw [allOk_append,allOk_append,hall,haok]
      constructor
      · rintro ⟨⟨-,hin⟩,hout⟩ k hk
        cases k with
        | zero => exact hout
        | succ k =>
          have := hin k (Nat.le_of_succ_le_succ hk)
          rwa [show i + 1 + k = i + (k + 1) by omega] at this
      · intro hk
        refine ⟨⟨hbok,fun k hle => ?_⟩,hk 0 (Nat.zero_le _)⟩
        rw [show i + 1 + k = i + (k + 1) by omega]
        exact hk (k + 1) (Nat.succ_le_succ hle)

theorem exists_depth {fuel i : ℕ} {l : List RefreshEvent} (h : doRefresh info o fuel i = some l) :
    ∃ j, j < fuel ∧ Depth info o i j := by
  induction fuel generalizing i l with
  | zero => cases h
  | succ fuel ih =>
    by_cases hrec : Recurses info (o i)
    · obtain ⟨_,_,-,-,-,-,hdo⟩ := doRefresh_nested fuel i hrec
      rw [hdo] at h
      obtain ⟨l',hl',-⟩ := Option.map_eq_some_iff.mp h
      obtain ⟨j,hj,hd⟩ := ih hl'
      refine ⟨j + 1,Nat.succ_lt_succ hj,fun k hk => ?_,?_⟩
      · cases k with
        | zero => exact hrec
        | succ k =>
          have := hd.1 k (Nat.lt_of_succ_lt_succ hk)
          rwa [show i + 1 + k = i + (k + 1) by omega] at this
      · have := hd.2
        rwa [show i + 1 + j = i + (j + 1) by omega] at this
    · exact ⟨0,Nat.succ_pos _,nofun,hrec⟩

theorem mem_setsFrom {i j : ℕ} {x : NodeState} :
    x ∈ setsFrom info o j i ↔ ∃ k ≤ j, setAtEnd info (o (i + k)) = x := by
  induction j generalizing i with
  | zero =>
    show x ∈ [_] ↔ _
    rw [List.mem_singleton]
    constructor
    · rintro rfl
      exact ⟨0,Nat.le_refl _,rfl⟩
    · rintro ⟨k,hk,rfl⟩
      rw [Nat.le_zero.mp hk]
      rfl
  | succ j ih =>
    rw [setsFrom,List.mem_append,ih,List.mem_singleton]
    constructor
    · rintro (⟨k,hk,rfl⟩ | rfl)
      · exact ⟨k + 1,Nat.succ_le_succ hk,by rw [show i + 1 + k = i + (k + 1) by omega]⟩
      · exact ⟨0,Nat.zero_le _,rfl⟩
    · rintro ⟨k,hk,rfl⟩
      cases k with
      | zero => exact .inr rfl
      | succ k => exact .inl ⟨k,Nat.le_of_succ_le_succ hk,by rw [show i + 1 + k = i + (k + 1) by omega]⟩

/-- Each call that has another one inside it fails if that one fails. -/
def PassedOn (info : CompInfo) (o : ℕ → RefreshRound) (i j : ℕ) : Prop :=
  ∀ k < j, Fails info (o (i + (k + 1))) → Fails info (o (i + k))

theorem PassedOn.first {i j k : ℕ} (h : PassedOn info o i j) (hk : k ≤ j) (hf : Fails info (o (i + k))) :
    Fails info (o i) := by
  induction k with
  | zero => exact hf
  | succ k ih => exact ih (Nat.le_of_succ_le hk) (h k hk hf)

/-- A repair is the last word exactly if the calls pass their failures on. -/
theorem staysInRepair_setsFrom (i j : ℕ) : StaysInRepair (setsFrom info o j i) ↔ PassedOn info o i j := by
  induction j generalizing i with
  | zero => exact iff_of_true (List.pairwise_singleton _ _) nofun
  | succ j ih =>
    have hshift : ∀ k, i + 1 + k = i + (k + 1) := fun k => by omega
    unfold StaysInRepair at ih ⊢
    rw [setsFrom,List.pairwise_append,ih]
    constructor
    · rintro ⟨hin,-,hlast⟩ k hk hf
      cases k with
      | zero =>
        by_contra hno
        refine hlast .repair ?_ _ (List.mem_singleton_self _) rfl (setAtEnd_eq_free.mpr hno)
        exact mem_setsFrom.mpr ⟨0,Nat.zero_le _,setAtEnd_eq_repair.mpr hf⟩
      | succ k =>
        have := hin k (Nat.lt_of_succ_lt_succ hk)
        rw [hshift,hshift] at this
        exact this hf
    · intro h
      refine ⟨fun k hk => ?_,List.pairwise_singleton _ _,fun x hx y hy hrep hfree => ?_⟩
      · rw [hshift,hshift]
        exact h (k + 1) (Nat.succ_lt_succ hk)
      · obtain ⟨k,hk,rfl⟩ := mem_setsFrom.mp hx
        rw [List.mem_singleton.mp hy] at hfree
        refine setAtEnd_eq_free.mp hfree (h.first (Nat.succ_le_succ hk) ?_)
        rw [← hshift]
        exact setAtEnd_eq_repair.mp hrep

theorem getLast_setsFrom (i j : ℕ) : (setsFrom info o j i).getLast? = some (setAtEnd info (o i)) := by
  cases j with
  | zero => rfl
  | succ j => exact List.getLast?_concat

/-- A refresh ends well exactly if some call finds the dependent up, or comes to its end before it looks, and every call
that has another one inside it fails if that one fails. -/
theorem doRefresh_endsWell_iff (info : CompInfo) (o : ℕ → RefreshRound) :
    EndsWell info o ↔ ∃ j, Depth info o 0 j ∧ PassedOn info o 0 j := by
  constructor
  · rintro ⟨fuel,l,hl,-,hstay⟩
    obtain ⟨j,hj,hd⟩ := exists_depth hl
    obtain ⟨l',hl',hset,-⟩ := doRefresh_of_depth (fuel - (j + 1)) hd
    rw [show j + 1 + (fuel - (j + 1)) = fuel by omega,hl] at hl'
    cases hl'
    rw [hset] at hstay
    exact ⟨j,hd,(staysInRepair_setsFrom 0 j).mp hstay⟩
  · rintro ⟨j,hd,hp⟩
    obtain ⟨l,hl,hset,hall⟩ := doRefresh_of_depth 0 hd
    simp only [Nat.zero_add] at hall
    refine ⟨_,l,hl,?_,?_⟩
    · rw [hset,getLast_setsFrom,hall]
      by_cases hf : Fails info (o 0)
      · exact .inr ⟨fun h => h 0 (Nat.zero_le _) hf,congrArg some (setAtEnd_eq_repair.mpr hf)⟩
      · refine .inl ⟨fun k hk hfk => hf (hp.first hk ?_),congrArg some (setAtEnd_eq_free.mpr hf)⟩
        rwa [Nat.zero_add]
    · rw [hset]
      exact (staysInRepair_setsFrom 0 j).mpr hp

/-- The dependent does not come up, and the node is not to be contacted for the second refresh. -/
def lostNode (i : ℕ) : RefreshRound where
  connected := i = 0
  replied := true
  up := true
  dependent _ := .refreshing
  keebootConnected := true
  keebootReplied := true
  keebootFine := true
  keebootUp := true

theorem lostNode_not_endsWell : ¬EndsWell { hasDependent := true } lostNode := by
  rintro ⟨fuel,l,hl,-,hstay⟩
  match fuel with
  | 0 => cases hl
  | 1 => cases hl
  | fuel + 2 =>
    have hsets : doRefresh { hasDependent := true } lostNode (fuel + 2) 0 =
        some [.step true,.step true,.step true,.step false,.set .repair,.set .free] := rfl
    cases hsets.symm.trans hl
    exact absurd hstay (by unfold StaysInRepair; decide)

end OnlDaemons.Crd
