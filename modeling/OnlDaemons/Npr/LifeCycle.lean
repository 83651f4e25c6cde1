import OnlDaemons.Npr.Filters
import OnlDaemons.Npr.RouterRuns

/-!
# Starting and stopping the router and its plugins

`start_router` and `add_plugin` load object files, write their images to microengines and start them. The daemon remembers
the microengines in use in `used_me_mask` and whether the router runs in `state`. What the loader library, the microengines
and the TCAM daemon do in a call is part of the call here.

## Main definitions

- `LifeCycle`, `LifeCall`, `LifeCycle.exec` — the state, the calls and what they do
- `LifeCycle.Coherent` — the mask is that of what is loaded, and the router is started if it is ready
- `LifeCycle.Orderly` — what a call has to meet for that to stay so

## Main results

- `router_run` — how the runs go with those of `Router`
- `coherent_exec` — a call leaves a coherent state coherent exactly when it is orderly
- `coherent_iff_orderly`
-/

namespace OnlDaemons.Npr
open OnlDaemons.Lib OnlDaemons.Lib.RangeList

/-- An object file in memory: its microengines (`UcLo_GetAssignedMEs`), and whether its image is written to them. -/
structure ObjFile where
  assignedMes : BitVec 32
  written : Bool
deriving DecidableEq

/-- The calls. `initFails` and `stop` say how the exchange with the TCAM daemon ends, as in `StartEnd` and `StopEnd`. `load`
has the microengines of the object file or the status, `write` the status when the image cannot be written, `notStarting`
and `notStopping` have the microengines for which `halMe_Start` and `halMe_Stop` fail. `reported` is what
`UcLo_GetAssignedMEs` returns without an object file. A load that fails leaves the handle as it is. -/
inductive LifeCall
  | startRouter (initFails : Option (Bool × String)) (load : Except ℕ (BitVec 32)) (write : Option ℕ)
      (notStarting : BitVec 32) (filters : ℕ → Exchange × Bool)
  | stopRouter (stop : StopEnd) (deleted : Bool)
  | addPlugin (path : String) (pme : ℕ) (irregular : Bool) (load : Except ℕ (BitVec 32)) (notStopping : BitVec 32)
      (write : Option ℕ) (notStarting : BitVec 32)
  | delPlugin (pme : ℕ) (reported notStopping : BitVec 32) (deleted : Bool)

/-- The router with its microengines. -/
structure LifeCycle where
  router : Router
  usedMeMask : BitVec 32 := 0
  routerBaseHandle : Option ObjFile := none
  pluginUofHandles : ℕ → Option ObjFile := fun _ => none

/-- The first microengine of a mask that the hardware does not start or stop. -/
def firstFailing (meMask failing : BitVec 32) : Option ℕ :=
  (List.range 0x18).find? fun me => meMask.getLsbD me && failing.getLsbD me

def startMes (usedMeMask notStarting : BitVec 32) : Except String Unit :=
  match firstFailing usedMeMask notStarting with
  | some me => .error ("failed to state microengine " ++ toString me)
  | none => .ok ()

def stopMes (meMask notStopping : BitVec 32) : Except String Unit :=
  match firstFailing meMask notStopping with
  | some me => .error ("failed to stop microengine " ++ toString me)
  | none => .ok ()

/-- `stop_router` gets past its exchange with the TCAM daemon. -/
def StopEnd.isAnswer : StopEnd → Bool
  | .dead _ => false
  | _ => true

namespace LifeCycle

def startRouter (sm : SearchMachine) (initFails : Option (Bool × String)) (load : Except ℕ (BitVec 32))
    (write : Option ℕ) (notStarting : BitVec 32) (filters : ℕ → Exchange × Bool) (s : LifeCycle) :
    Except String Unit × LifeCycle :=
  if s.router.started then (.ok (), s)
  else
    match initFails with
    | some (arrived, text) => (.error text, { s with router := if arrived then s.router.initTcam else s.router })
    | none =>
      let s := { s with router := s.router.initTcam.makeLists }
      match load with
      | .error status => (.error ("failed to load router base code, status=" ++ toString status), s)
      | .ok mes =>
        let s := { s with routerBaseHandle := some ⟨mes, false⟩, usedMeMask := s.usedMeMask ||| mes }
        match write with
        | some status => (.error ("failed to load router base code, status=" ++ toString status), s)
        | none =>
          let s := { s with routerBaseHandle := some ⟨mes, true⟩ }
          match startMes s.usedMeMask notStarting with
          | .error text => (.error text, s)
          | .ok () =>
            let filtered := addDefFilters sm filters [1, 2, 4, 8] s.router.conf
            (filtered.1, { s with router := { s.router with conf := filtered.2, started := true } })

/-- Microengines that do not stop are only logged, and so is an object file that cannot be deleted. -/
def stopRouter (stop : StopEnd) (deleted : Bool) (s : LifeCycle) : Except String Unit × LifeCycle :=
  if s.router.started then
    let s := { s with router := s.router.stopRouter stop }
    if stop.isAnswer then
      (.ok (), { s with
        routerBaseHandle := if deleted then none else s.routerBaseHandle
        usedMeMask := 0 })
    else (.ok (), s)
  else (.ok (), s)

def addPlugin (path : String) (pme : ℕ) (irregular : Bool) (load : Except ℕ (BitVec 32)) (notStopping : BitVec 32)
    (write : Option ℕ) (notStarting : BitVec 32) (s : LifeCycle) : Except String Unit × LifeCycle :=
  if pme > 4 then (.error ("plugin ME " ++ toString pme ++ " is invalid"), s)
  else if irregular then (.error ("plugin path " ++ path ++ " is invalid"), s)
  else
    match load with
    | .error _ => (.error "failed to load plugin code", s)
    | .ok pluginMes =>
      let s := { s with pluginUofHandles := Function.update s.pluginUofHandles pme (some ⟨pluginMes, false⟩) }
      match stopMes s.usedMeMask notStopping with
      | .error text => (.error text, s)
      | .ok () =>
        let s := { s with usedMeMask := s.usedMeMask ||| pluginMes }
        match write with
        | some _ =>
          match startMes s.usedMeMask notStarting with
          | .error text => (.error text, s)
          | .ok () => (.error "failed to load the plugin code", s)
        | none =>
          let s := { s with pluginUofHandles := Function.update s.pluginUofHandles pme (some ⟨pluginMes, true⟩) }
          (startMes s.usedMeMask notStarting, s)

def delPlugin (pme : ℕ) (reported notStopping : BitVec 32) (deleted : Bool) (s : LifeCycle) :
    Except String Unit × LifeCycle :=
  if pme > 4 then (.error ("plugin ME " ++ toString pme ++ " is invalid"), s)
  else
    let pluginMes := (s.pluginUofHandles pme).elim reported (·.assignedMes)
    match stopMes pluginMes notStopping with
    | .error text => (.error text, s)
    | .ok () =>
      let s := { s with
        usedMeMask := s.usedMeMask ^^^ pluginMes
        pluginUofHandles := Function.update s.pluginUofHandles pme none }
      if deleted then (.ok (), s) else (.error "failed to remove the plugin code", s)

def exec (sm : SearchMachine) : LifeCall → LifeCycle → Except String Unit × LifeCycle
  | .startRouter initFails load write notStarting filters => startRouter sm initFails load write notStarting filters
  | .stopRouter stop deleted => stopRouter stop deleted
  | .addPlugin path pme irregular load notStopping write notStarting =>
    addPlugin path pme irregular load notStopping write notStarting
  | .delPlugin pme reported notStopping deleted => delPlugin pme reported notStopping deleted

/-- The calls never get stuck. -/
def step (sm : SearchMachine) (s : LifeCycle) (a : LifeCall) : Option LifeCycle := some (exec sm a s).2

/-- What the constructor leaves. -/
def init (sram : ℕ → SramWords) : LifeCycle where
  router := Router.new sram

end LifeCycle

/-! ### What the mask and the state mean -/

/-- The microengines of what a handle refers to, once its image is written. -/
def loadedMes (handle : Option ObjFile) : BitVec 32 :=
  match handle with
  | some obj => if obj.written then obj.assignedMes else 0
  | none => 0

def Loaded (handle : Option ObjFile) : Prop := ∃ obj ∈ handle, obj.written = true

instance (handle : Option ObjFile) : Decidable (Loaded handle) :=
  decidable_of_iff (handle.any (·.written) = true) (by cases handle <;> simp [Loaded])

/-- The microengines of the plugins. -/
def pluginMes (handles : ℕ → Option ObjFile) : BitVec 32 :=
  (List.range 5).foldr (fun pme mes => loadedMes (handles pme) ||| mes) 0

/-- Every list of free indices is there. -/
structure Present (c : Configuration) : Prop where
  sramFreeList : c.sramFreeList ≠ []
  free : ∀ pool, (layout pool).isSome → c.free pool ≠ []
  arps : c.arps ≠ []

/-- One mask has no microengine that the other has not. -/
def Within (a b : BitVec 32) : Prop := a ||| b = b

instance (a b : BitVec 32) : Decidable (Within a b) := inferInstanceAs (Decidable (_ = _))

namespace LifeCycle

structure Coherent (s : LifeCycle) : Prop where
  mask : s.usedMeMask = loadedMes s.routerBaseHandle ||| pluginMes s.pluginUofHandles
  state : s.router.started ↔ Loaded s.routerBaseHandle ∧ Present s.router.conf

/-- All that is loaded besides the plugin of `pme`. -/
def othersMes (pme : ℕ) (s : LifeCycle) : BitVec 32 :=
  loadedMes s.routerBaseHandle ||| pluginMes (Function.update s.pluginUofHandles pme none)

/-- `start_router` has no base code that it may lose, or that is still there when it fails; `stop_router` gets an answer, and
there is no plugin; a plugin that is replaced or deleted has its microengines for itself or not, as it needs. -/
def Orderly : LifeCall → LifeCycle → Prop
  | .startRouter initFails load write notStarting _, s =>
    s.router.started = false → initFails = none →
      match load with
      | .error _ => ¬Loaded s.routerBaseHandle
      | .ok mes =>
        if write = none then
          startMes (s.usedMeMask ||| mes) notStarting = .ok () ∧
            Within (loadedMes s.routerBaseHandle) (mes ||| pluginMes s.pluginUofHandles)
        else Within (loadedMes s.routerBaseHandle ||| mes) (pluginMes s.pluginUofHandles)
  | .stopRouter stop deleted, s =>
    s.router.started →
      stop.isAnswer ∧ pluginMes s.pluginUofHandles = 0 ∧ (deleted = false → loadedMes s.routerBaseHandle = 0)
  | .addPlugin _ pme irregular load notStopping write _, s =>
    pme ≤ 4 → irregular = false →
      match load with
      | .error _ => True
      | .ok mes =>
        let old := loadedMes (s.pluginUofHandles pme)
        if stopMes s.usedMeMask notStopping = .ok () then
          if write = none then Within old (othersMes pme s ||| mes) else Within (old ||| mes) (othersMes pme s)
        else Within old (othersMes pme s)
  | .delPlugin pme reported notStopping _, s =>
    pme ≤ 4 → stopMes ((s.pluginUofHandles pme).elim reported (·.assignedMes)) notStopping = .ok () →
      if Loaded (s.pluginUofHandles pme) then loadedMes (s.pluginUofHandles pme) &&& othersMes pme s = 0
      else (s.pluginUofHandles pme).elim reported (·.assignedMes) = 0

end LifeCycle

/-! ### Masks -/

theorem foldr_update (handles : ℕ → Option ObjFile) (pme : ℕ) (o : Option ObjFile) (l : List ℕ) (hl : l.Nodup) :
    l.foldr (fun q mes => loadedMes (Function.update handles pme o q) ||| mes) 0 =
      l.foldr (fun q mes => loadedMes (Function.update handles pme none q) ||| mes) 0 |||
        if pme ∈ l then loadedMes o else 0 := by
  induction l with
  | nil => simp
  | cons q l ih =>
    have hq : q ∉ l := (List.nodup_cons.1 hl).1
    rw [List.foldr_cons, List.foldr_cons, ih (List.nodup_cons.1 hl).2]
    by_cases hp : q = pme
    · subst hp
      rw [Function.update_self, Function.update_self, if_neg hq, if_pos (List.mem_cons_self ..)]
      simp [loadedMes, BitVec.or_comm]
    · rw [Function.update_of_ne hp, Function.update_of_ne hp, BitVec.or_assoc]
      simp [Ne.symm hp]

variable {handles : ℕ → Option ObjFile} {pme : ℕ}

theorem pluginMes_update (hp : pme ≤ 4) (o : Option ObjFile) :
    pluginMes (Function.update handles pme o) = pluginMes (Function.update handles pme none) ||| loadedMes o := by
  rw [pluginMes, pluginMes, foldr_update handles pme o _ List.nodup_range, if_pos (List.mem_range.2 (by omega))]

theorem pluginMes_eq (hp : pme ≤ 4) :
    pluginMes handles = pluginMes (Function.update handles pme none) ||| loadedMes (handles pme) := by
  rw [← pluginMes_update hp, Function.update_eq_self]

theorem loadedMes_of_not {o : Option ObjFile} (h : ¬Loaded o) : loadedMes o = 0 := by
  cases o with
  | none => rfl
  | some obj =>
    have hw : obj.written ≠ true := fun hw => h ⟨obj, rfl, hw⟩
    simp [loadedMes, hw]

theorem or_noMes (a : BitVec 32) : a ||| 0 = a := BitVec.or_zero

theorem zero_eq_or (a b : BitVec 32) : 0#32 = a ||| b ↔ a = 0 ∧ b = 0 := by
  constructor
  · intro h
    have hbits : ∀ i (hi : i < 32), a[i] = false ∧ b[i] = false := by
      intro i hi
      have hbit := congrArg (fun x : BitVec 32 => x[i]) h
      simpa using hbit.symm
    constructor <;> ext i hi
    · simpa using (hbits i hi).1
    · simpa using (hbits i hi).2
  · rintro ⟨rfl, rfl⟩
    rfl

theorem or_xor_eq_iff (a v : BitVec 32) : (a ||| v) ^^^ v = a ↔ v &&& a = 0 := by
  constructor
  · intro h
    ext i hi
    have hbit := congrArg (fun b : BitVec 32 => b[i]) h
    simp only [BitVec.getElem_xor, BitVec.getElem_or] at hbit
    simp only [BitVec.getElem_and, BitVec.ofNat_eq_ofNat, BitVec.getElem_zero]
    cases hv : v[i] <;> cases ha : a[i] <;> simp_all
  · intro h
    ext i hi
    have hbit := congrArg (fun b : BitVec 32 => b[i]) h
    simp only [BitVec.getElem_and, BitVec.ofNat_eq_ofNat, BitVec.getElem_zero] at hbit
    simp only [BitVec.getElem_xor, BitVec.getElem_or]
    cases hv : v[i] <;> cases ha : a[i] <;> simp_all

/-! ### The free lists -/

/-- The lists that the default filters take from have `k` indices to spare, and the others are there. -/
structure Roomy (k : ℕ) (c : Configuration) : Prop where
  sramFreeList : ∃ l r, c.sramFreeList = [⟨l, r⟩] ∧ l + k ≤ r
  filters : ∃ l r, c.free (.pfilters 60) = [⟨l, r⟩] ∧ l + k ≤ r
  rest : ∀ pool, pool ≠ .pfilters 60 → (layout pool).isSome → c.free pool ≠ []
  arps : c.arps ≠ []

theorem Roomy.present {k : ℕ} {c : Configuration} (h : Roomy k c) : Present c where
  sramFreeList := by
    obtain ⟨l, r, heq, -⟩ := h.sramFreeList
    rw [heq]
    exact List.cons_ne_nil _ _
  free pool hpool := by
    by_cases hp : pool = .pfilters 60
    · obtain ⟨l, r, heq, -⟩ := h.filters
      rw [hp, heq]
      exact List.cons_ne_nil _ _
    · exact h.rest pool hp hpool
  arps := h.arps

theorem roomy_makeLists (r : Router) : Roomy 4 r.makeLists.conf where
  sramFreeList := ⟨_, _, rfl, by decide⟩
  filters := ⟨_, _, rfl, by decide⟩
  rest pool _ hpool := by
    obtain ⟨range, hrange⟩ := Option.isSome_iff_exists.1 hpool
    simp [Router.makeLists, startLists, hrange]
  arps := List.cons_ne_nil _ _

theorem getFreeIndex_range {l r : ℕ} (h : l + 1 ≤ r) : getFreeIndex [⟨l, r⟩] = some (l, [⟨l + 1, r⟩]) := by
  have hne : l ≠ r := by omega
  simp [getFreeIndex, hne]

theorem Roomy.addPfilter {k : ℕ} {c : Configuration} (h : Roomy (k + 1) c) (sm : SearchMachine) (key mask : FilterKey)
    (result : RouteResult) (x : Exchange) (arrived : Bool) :
    Roomy k (call sm (.addPfilter key mask 60 result x) arrived c).2 := by
  obtain ⟨l, r, hfree, hlr⟩ := h.filters
  obtain ⟨l', r', hsram, hlr'⟩ := h.sramFreeList
  have htaken : ∀ c' : Configuration, c'.sramFreeList = [⟨l' + 1, r'⟩] →
      c'.free = Function.update c.free (.pfilters 60) [⟨l + 1, r⟩] → c'.arps = c.arps → Roomy k c' := by
    intro c' hsram' hfree' harps
    refine ⟨⟨_, _, hsram', by omega⟩, ⟨l + 1, r, ?_, by omega⟩, ?_, harps ▸ h.arps⟩
    · rw [hfree', Function.update_self]
    · intro pool hne hpool
      rw [hfree', Function.update_of_ne hne]
      exact h.rest pool hne hpool
  have hindex := getFreeIndex_range (by omega : l + 1 ≤ r)
  have hindex' := getFreeIndex_range (by omega : l' + 1 ≤ r')
  rw [call, exec, Npr.addPfilter, if_neg (by decide), addEntry, hfree, hindex]
  simp only [Configuration.setFree, hsram, hindex']
  cases x <;> cases arrived <;> exact htaken _ rfl rfl rfl

theorem Roomy.addDefFilters (sm : SearchMachine) (filters : ℕ → Exchange × Bool) (es : List ℕ) {k : ℕ} {c : Configuration}
    (h : Roomy (k + es.length) c) : Present (addDefFilters sm filters es c).2 := by
  induction es generalizing c with
  | nil => exact h.present
  | cons e es ih =>
    have hadd := Roomy.addPfilter (k := k + es.length) h sm (defFilterKey e) (defFilterKey e) defFilterResult
      (filters e).1 (filters e).2
    unfold Npr.addDefFilters
    split
    · rename_i c' heq
      rw [heq] at hadd
      exact ih hadd
    · rename_i text c' heq
      rw [heq] at hadd
      exact hadd.present

/-! ### One call -/

namespace LifeCycle

variable {s : LifeCycle}

@[simp] theorem loaded_some (mes : BitVec 32) (written : Bool) : Loaded (some ⟨mes, written⟩) ↔ written = true := by
  simp [Loaded]

@[simp] theorem not_loaded_none : ¬Loaded none := by simp [Loaded]

@[simp] theorem loadedMes_unwritten (mes : BitVec 32) : loadedMes (some ⟨mes, false⟩) = 0 := rfl

@[simp] theorem loadedMes_written (mes : BitVec 32) : loadedMes (some ⟨mes, true⟩) = mes := rfl

@[simp] theorem loadedMes_none : loadedMes none = 0 := rfl

theorem not_present_stopRouter {r : Router} (h : r.started) (stop : StopEnd) : ¬Present (r.stopRouter stop).conf := by
  intro hp
  apply hp.sramFreeList
  simp only [Router.stopRouter, h, if_true]
  cases stop with
  | dead arrived => cases arrived <;> rfl
  | fault => rfl
  | done => rfl

theorem started_stopRouter {r : Router} (h : r.started) (stop : StopEnd) :
    (r.stopRouter stop).started = !stop.isAnswer := by
  simp only [Router.stopRouter, h, if_true]
  cases stop with
  | dead arrived => cases arrived <;> exact h
  | fault => rfl
  | done => rfl

theorem coherent_iff (s : LifeCycle) : Coherent s ↔
    s.usedMeMask = loadedMes s.routerBaseHandle ||| pluginMes s.pluginUofHandles ∧
      (s.router.started ↔ Loaded s.routerBaseHandle ∧ Present s.router.conf) :=
  ⟨fun h => ⟨h.mask, h.state⟩, fun h => ⟨h.1, h.2⟩⟩

theorem coherent_startRouter (h : Coherent s) (sm : SearchMachine) (initFails : Option (Bool × String))
    (load : Except ℕ (BitVec 32)) (write : Option ℕ) (notStarting : BitVec 32) (filters : ℕ → Exchange × Bool) :
    Coherent (startRouter sm initFails load write notStarting filters s).2 ↔
      Orderly (.startRouter initFails load write notStarting filters) s := by
  have hroomy := roomy_makeLists s.router.initTcam
  have hpresent := hroomy.present
  have hinit : s.router.initTcam.started = s.router.started := by
    unfold Router.initTcam
    split <;> rfl
  have hmade : s.router.initTcam.makeLists.started = s.router.started := hinit
  simp only [Orderly, startRouter]
  cases hstarted : s.router.started with
  | true => simp [h]
  | false =>
    rw [hstarted] at hmade
    cases initFails with
    | some x =>
      have hlists : s.router.initTcam.conf.sramFreeList = s.router.conf.sramFreeList ∧
          s.router.initTcam.conf.free = s.router.conf.free ∧ s.router.initTcam.conf.arps = s.router.conf.arps := by
        unfold Router.initTcam
        split <;> exact ⟨rfl, rfl, rfl⟩
      have hkept : Present s.router.initTcam.conf ↔ Present s.router.conf := by
        constructor
        · exact fun hp => ⟨hlists.1 ▸ hp.1, hlists.2.1 ▸ hp.2, hlists.2.2 ▸ hp.3⟩
        · exact fun hp => ⟨hlists.1.symm ▸ hp.1, hlists.2.1.symm ▸ hp.2, hlists.2.2.symm ▸ hp.3⟩
      have hstate : s.router.initTcam.started = true ↔ Loaded s.routerBaseHandle ∧ Present s.router.initTcam.conf := by
        rw [hinit, hkept]
        exact h.state
      obtain ⟨arrived, text⟩ := x
      cases arrived with
      | false => simp [h]
      | true => simpa using ⟨h.mask, hstate⟩
    | none =>
      simp only [Bool.false_eq_true, if_false, true_imp_iff]
      cases load with
      | error status =>
        -- the lists are there now, so that a base code from before would make the router ready
        rw [coherent_iff]
        simp [hpresent, h.mask, hmade]
      | ok mes =>
        have hmask : s.usedMeMask ||| mes = loadedMes s.routerBaseHandle ||| mes ||| pluginMes s.pluginUofHandles := by
          rw [h.mask]
          ac_rfl
        cases write with
        | some status =>
          rw [coherent_iff]
          simp [hmask, hmade, Within]
        | none =>
          simp only [if_true]
          cases hstart : startMes (s.usedMeMask ||| mes) notStarting with
          | error text =>
            rw [coherent_iff]
            simp [hpresent, hmade]
          | ok _ =>
            have hfiltered := hroomy.addDefFilters sm filters [1, 2, 4, 8]
            rw [coherent_iff]
            simp [hfiltered, hmask, Within, BitVec.or_assoc]

theorem coherent_stopRouter (h : Coherent s) (stop : StopEnd) (deleted : Bool) :
    Coherent (stopRouter stop deleted s).2 ↔ Orderly (.stopRouter stop deleted) s := by
  simp only [Orderly, stopRouter]
  cases hstarted : s.router.started with
  | false => simp [h]
  | true =>
    have hlists := not_present_stopRouter hstarted stop
    have hstate := started_stopRouter hstarted stop
    simp only [if_true, true_imp_iff]
    cases hanswer : stop.isAnswer with
    | false =>
      rw [coherent_iff]
      simp [hlists, hstate, hanswer]
    | true =>
      rw [coherent_iff]
      cases deleted with
      | true => simp [hlists, hstate, hanswer, eq_comm]
      | false => simp [hlists, hstate, hanswer, zero_eq_or, and_comm]

/-- A call for one plugin engine changes the mask and its handle. -/
theorem coherent_update {pme : ℕ} (h : Coherent s) (hpme : pme ≤ 4) (mask : BitVec 32) (o : Option ObjFile) :
    Coherent { s with usedMeMask := mask, pluginUofHandles := Function.update s.pluginUofHandles pme o } ↔
      mask = othersMes pme s ||| loadedMes o := by
  rw [coherent_iff, pluginMes_update hpme, ← BitVec.or_assoc]
  exact and_iff_left h.state

theorem Coherent.mask_eq {pme : ℕ} (h : Coherent s) (hpme : pme ≤ 4) :
    s.usedMeMask = othersMes pme s ||| loadedMes (s.pluginUofHandles pme) := by
  rw [h.mask, pluginMes_eq hpme, othersMes, BitVec.or_assoc]

theorem coherent_addPlugin (h : Coherent s) (path : String) (pme : ℕ) (irregular : Bool) (load : Except ℕ (BitVec 32))
    (notStopping : BitVec 32) (write : Option ℕ) (notStarting : BitVec 32) :
    Coherent (addPlugin path pme irregular load notStopping write notStarting s).2 ↔
      Orderly (.addPlugin path pme irregular load notStopping write notStarting) s := by
  simp only [Orderly, addPlugin]
  by_cases hpme : pme > 4
  · simp [hpme, h]
  have hle : pme ≤ 4 := by omega
  cases irregular with
  | true => simp [hpme, h]
  | false =>
    cases load with
    | error status => simp [hpme, h]
    | ok mes =>
      have hmask := h.mask_eq hle
      simp only [if_neg hpme, hle, Bool.false_eq_true, if_false, true_imp_iff]
      cases hstop : stopMes s.usedMeMask notStopping with
      | error text =>
        refine (coherent_update h hle _ _).trans ?_
        rw [hmask, BitVec.or_comm, loadedMes_unwritten, or_noMes]
        simp [Within]
      | ok _ =>
        cases write with
        | some status =>
          have hthrown : Coherent { s with
                usedMeMask := s.usedMeMask ||| mes
                pluginUofHandles := Function.update s.pluginUofHandles pme (some ⟨mes, false⟩) } ↔
              Within (loadedMes (s.pluginUofHandles pme) ||| mes) (othersMes pme s) := by
            refine (coherent_update h hle _ _).trans ?_
            rw [hmask, BitVec.or_assoc, BitVec.or_comm, loadedMes_unwritten, or_noMes, Within]
          simp only [reduceCtorEq, if_false, if_true]
          split <;> exact hthrown
        | none =>
          simp only [Function.update_idem, if_true]
          refine (coherent_update h hle _ _).trans ?_
          rw [hmask, BitVec.or_assoc, BitVec.or_comm, loadedMes_written, Within, BitVec.or_assoc,
            BitVec.or_comm mes (othersMes pme s)]

theorem coherent_delPlugin (h : Coherent s) (pme : ℕ) (reported notStopping : BitVec 32) (deleted : Bool) :
    Coherent (delPlugin pme reported notStopping deleted s).2 ↔
      Orderly (.delPlugin pme reported notStopping deleted) s := by
  simp only [Orderly, delPlugin]
  by_cases hpme : pme > 4
  · simp [hpme, h]
  have hle : pme ≤ 4 := by omega
  simp only [if_neg hpme, hle, true_imp_iff]
  cases hstop : stopMes ((s.pluginUofHandles pme).elim reported (·.assignedMes)) notStopping with
  | error text => simp [h]
  | ok _ =>
    have hupdate : Coherent { s with
          usedMeMask := s.usedMeMask ^^^ (s.pluginUofHandles pme).elim reported (·.assignedMes)
          pluginUofHandles := Function.update s.pluginUofHandles pme none } ↔
        if Loaded (s.pluginUofHandles pme) then loadedMes (s.pluginUofHandles pme) &&& othersMes pme s = 0
        else (s.pluginUofHandles pme).elim reported (·.assignedMes) = 0 := by
      refine (coherent_update h hle _ _).trans ?_
      rw [h.mask_eq hle, loadedMes_none, or_noMes]
      split
      · rename_i hloaded
        obtain ⟨obj, hobj, hwritten⟩ := hloaded
        have hmes : loadedMes (s.pluginUofHandles pme) = (s.pluginUofHandles pme).elim reported (·.assignedMes) := by
          rw [Option.mem_def.1 hobj]
          simp [loadedMes, hwritten]
        rw [← hmes]
        exact or_xor_eq_iff ..
      · rename_i hloaded
        rw [loadedMes_of_not hloaded, or_noMes]
        constructor
        · intro hxor
          apply (BitVec.xor_right_inj (othersMes pme s)).1
          exact hxor.trans (BitVec.xor_zero ..).symm
        · intro hzero
          rw [hzero]
          exact BitVec.xor_zero ..
    simp only [true_imp_iff]
    cases deleted <;> exact hupdate

/-- A call keeps a coherent state coherent exactly when it is orderly. -/
theorem coherent_exec (h : Coherent s) (sm : SearchMachine) (a : LifeCall) : Coherent (exec sm a s).2 ↔ Orderly a s := by
  cases a with
  | startRouter initFails load write notStarting filters => exact coherent_startRouter h ..
  | stopRouter stop deleted => exact coherent_stopRouter h ..
  | addPlugin path pme irregular load notStopping write notStarting => exact coherent_addPlugin h ..
  | delPlugin pme reported notStopping deleted => exact coherent_delPlugin h ..

/-- The plugins aside, the router goes as in `Router.exec`. -/
theorem router_exec (sm : SearchMachine) (a : LifeCall) :
    (exec sm a s).2.router = s.router ∨ ∃ c, (exec sm a s).2.router = s.router.exec sm c := by
  cases a with
  | startRouter initFails load write notStarting filters =>
    cases hstarted : s.router.started with
    | true => exact .inl (by simp [exec, startRouter, hstarted])
    | false =>
      simp only [exec, startRouter, hstarted, Bool.false_eq_true, if_false]
      cases initFails with
      | some x => exact .inr ⟨.start (.noInit x.1 x.2), by simp [Router.exec, Router.startRouter, hstarted]⟩
      | none =>
        have hnoCode : s.router.initTcam.makeLists = s.router.exec sm (.start (.noCode "")) := by
          simp [Router.exec, Router.startRouter, hstarted]
        cases load with
        | error status => exact .inr ⟨_, hnoCode⟩
        | ok mes =>
          cases write with
          | some status => exact .inr ⟨_, hnoCode⟩
          | none =>
            simp only
            cases startMes (s.usedMeMask ||| mes) notStarting with
            | error text => exact .inr ⟨_, hnoCode⟩
            | ok _ => exact .inr ⟨.start (.code filters), by simp [Router.exec, Router.startRouter, hstarted]⟩
  | stopRouter stop deleted =>
    cases hstarted : s.router.started with
    | false => exact .inl (by simp [exec, stopRouter, hstarted])
    | true =>
      refine .inr ⟨.stop stop, ?_⟩
      simp only [exec, stopRouter, hstarted, if_true]
      split <;> rfl
  | addPlugin path pme irregular load notStopping write notStarting =>
    left
    simp only [exec, addPlugin]
    repeat' split
    all_goals rfl
  | delPlugin pme reported notStopping deleted =>
    left
    simp only [exec, delPlugin]
    repeat' split
    all_goals rfl

/-! ### Runs -/

/-- A run of the calls visits the routers of a run of `Router`, in the same order. -/
theorem router_run (sm : SearchMachine) (s : LifeCycle) (calls : List LifeCall) :
    ∃ tr, IsRun (Router.step sm) s.router tr ∧ ∀ P : Router → Prop,
      EveryState P s.router tr ↔ EveryState (fun t => P t.router) s (runOf (step sm) s calls) := by
  apply (isRun_runOf (step sm) s calls).exists_of_stutter router
  intro s a t ht
  obtain rfl : (exec sm a s).2 = t := Option.some.inj ht
  obtain hsame | ⟨c, hcall⟩ := router_exec sm a
  · exact .inl hsame
  · exact .inr ⟨c, hcall.symm⟩

theorem coherent_init (sram : ℕ → SramWords) : Coherent (init sram) where
  mask := by simp [init, pluginMes]
  state := by simp [init, Router.new]

/-- Every state is coherent in the runs whose calls are all orderly, and in those only. -/
theorem coherent_iff_orderly (sm : SearchMachine) (sram : ℕ → SramWords) (calls : List LifeCall) :
    EveryState Coherent (init sram) (runOf (step sm) (init sram) calls) ↔
      EveryStep (fun s a _ => Orderly a s) (init sram) (runOf (step sm) (init sram) calls) := by
  apply (isRun_runOf (step sm) (init sram) calls).everyState_iff (P := Coherent)
  · intro s a t h hstep horderly
    cases hstep
    exact (coherent_exec h sm a).2 horderly
  · intro s a t h hstep hcoherent
    cases hstep
    exact (coherent_exec h sm a).1 hcoherent
  · exact fun _ h => h
  · exact coherent_init sram

/-- The router starts, a plugin is loaded, and the router stops. -/
def stopWithPlugin : List LifeCall :=
  [.startRouter none (.ok 1) none 0 fun _ => (.done, false), .addPlugin "count" 0 false (.ok 2) 0 none 0,
    .stopRouter .done true]

/-- The plugin is still loaded, and its microengine is not in the mask. -/
theorem stopWithPlugin_last :
    let s := lastState (init blankSram) (runOf (step tcam) (init blankSram) stopWithPlugin)
    s.usedMeMask = 0 ∧ s.routerBaseHandle = none ∧ s.pluginUofHandles 0 = some ⟨2, true⟩ := by
  decide

theorem stopWithPlugin_not_coherent :
    ¬EveryState Coherent (init blankSram) (runOf (step tcam) (init blankSram) stopWithPlugin) := by
  intro h
  obtain ⟨hmask, hbase, hplugin⟩ := stopWithPlugin_last
  have hlast := h.last.mask_eq (by decide : 0 ≤ 4)
  rw [hmask, hplugin, loadedMes_written] at hlast
  exact absurd ((zero_eq_or _ _).1 hlast).2 (by decide)

end LifeCycle

end OnlDaemons.Npr
