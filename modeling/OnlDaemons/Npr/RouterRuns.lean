import OnlDaemons.Npr.Routes
import OnlDaemons.Npr.SramMap

/-!
# Starting and stopping the router

`start_router` and `stop_router` make and drop the free index lists and tell the TCAM daemon to make
and drop its databases. Neither touches the SRAM map, and the databases are only empty after a
start if they were dropped before it.

## Main definitions

- `Router` — the configuration, its `state`, and whether the TCAM daemon has the databases
- `startRouter`, `stopRouter`, `call` — the two functions and a call in between
- `Call`, `step` — one of them, with how its exchanges end
- `Mirrors` — the SRAM map holds the addresses of the installed entries, each once
- `Tracked` — every installed entry is in the SRAM map

## Main results

- `addEntry_cases`, `delEntry_cases` — what a call that adds or deletes can do
- `tracked_run` — no entry gets lost from the map as long as routers start on empty databases
- `mirrors_run` — and none stays in it as long as calls that take indices succeed
-/

namespace OnlDaemons.Npr
open OnlDaemons.Lib OnlDaemons.Lib.RangeList

/-- The daemon between two calls. `tcamInit` is what the TCAM daemon has for the router. -/
structure Router where
  conf : Configuration
  started : Bool
  tcamInit : Bool

namespace Router

/-- What the constructor leaves. -/
def new (sram : ℕ → SramWords) : Router where
  conf :=
    { sramFreeList := []
      free := fun _ => []
      arps := []
      srmap := []
      nextId := 0
      sram := sram
      db := fun _ => [] }
  started := false
  tcamInit := false

/-- `routerinit`: databases that are there stay as they are. -/
def initTcam (r : Router) : Router :=
  if r.tcamInit then r else { r with conf := { r.conf with db := fun _ => [] }, tcamInit := true }

/-- `routerstop`. -/
def stopTcam (r : Router) : Router :=
  { r with conf := { r.conf with db := fun _ => [] }, tcamInit := false }

/-- The index lists of `start_router`. -/
def makeLists (r : Router) : Router :=
  { r with conf := { startLists r.conf.srmap r.conf.nextId r.conf.sram with db := r.conf.db } }

/-- The calls of `free_list_mem` in `stop_router`. -/
def freeLists (r : Router) : Router :=
  { r with conf := { r.conf with sramFreeList := [], free := fun _ => [], arps := [] } }

end Router

/-- An exchange with the TCAM daemon from its side, where the answer was sent and got lost. -/
def Exchange.arrived : Exchange → Exchange
  | .dead _ => .done
  | x => x

/-- The call with its last exchange as the TCAM daemon saw it. -/
def Op.arrived : Op → Op
  | .addRoute key mask result x => .addRoute key mask result x.arrived
  | .delRoute key query delete => .delRoute key query delete.arrived
  | .addPfilter key mask priority result x => .addPfilter key mask priority result x.arrived
  | .delPfilter key query delete => .delPfilter key query delete.arrived
  | .addAfilter key mask priority result x => .addAfilter key mask priority result x.arrived
  | .delAfilter key query delete => .delAfilter key query delete.arrived

/-- A call. With `arrived` the TCAM daemon has executed a command whose exchange failed. -/
def call (sm : SearchMachine) (op : Op) (arrived : Bool) (c : Configuration) :
    Except String Unit × Configuration :=
  let (r, c') := exec sm op c
  (r, if arrived then { c' with db := (exec sm op.arrived c).2.db } else c')

/-- How `start_router` ends: ROUTERINIT fails or its answer is lost, the microengine code cannot be
loaded, or the default filters are added, each with an exchange of its own. -/
inductive StartEnd
  | noInit (arrived : Bool) (text : String)
  | noCode (text : String)
  | code (filters : ℕ → Exchange × Bool)

/-- How the exchange of `stop_router` ends. -/
inductive StopEnd
  | dead (arrived : Bool)
  | fault
  | done

/-- The default filters, up to the first that throws. -/
def addDefFilters (sm : SearchMachine) (filters : ℕ → Exchange × Bool) : List ℕ → Configuration →
    Except String Unit × Configuration
  | [], c => (.ok (), c)
  | exceptions :: rest, c =>
    match call sm (.addPfilter (defFilterKey exceptions) (defFilterKey exceptions) 60
        defFilterResult (filters exceptions).1) (filters exceptions).2 c with
    | (.ok (), c) => addDefFilters sm filters rest c
    | (.error text, c) => (.error text, c)

/-- `Configuration::start_router`. -/
def Router.startRouter (sm : SearchMachine) (x : StartEnd) (r : Router) : Except String Unit × Router :=
  if r.started then (.ok (), r)
  else
    match x with
    | .noInit arrived text => (.error text, if arrived then r.initTcam else r)
    | .noCode text => (.error text, r.initTcam.makeLists)
    | .code filters =>
      let r := r.initTcam.makeLists
      let (result, c) := addDefFilters sm filters [1, 2, 4, 8] r.conf
      (result, { r with conf := c, started := true })

/-- `Configuration::stop_router`. -/
def Router.stopRouter (x : StopEnd) (r : Router) : Router :=
  if r.started then
    match x with
    -- it returns before it sets the state
    | .dead arrived => if arrived then r.freeLists.stopTcam else r.freeLists
    | .fault => { r.freeLists with started := false }
    | .done => { r.freeLists.stopTcam with started := false }
  else r

inductive Call
  | start (x : StartEnd)
  | stop (x : StopEnd)
  | op (op : Op) (arrived : Bool)

/-- One call, however it ends. -/
def Router.exec (sm : SearchMachine) (r : Router) : Call → Router
  | .start x => (r.startRouter sm x).2
  | .stop x => r.stopRouter x
  | .op op arrived => { r with conf := (call sm op arrived r.conf).2 }

/-- The call makes the index lists anew, or the TCAM daemon drops or makes its databases. -/
def Router.Rebuilds (r : Router) : Call → Prop
  | .start (.noInit arrived _) => r.started = false ∧ arrived = true ∧ r.tcamInit = false
  | .start _ => r.started = false
  | .stop (.dead arrived) => r.started = true ∧ arrived = true
  | .stop .fault => False
  | .stop .done => r.started = true
  | .op _ _ => False

/-- A call that takes indices installs its entry, and one that has its entry removed learns of it. -/
structure Op.Finishes (op : Op) (arrived : Bool) (c : Configuration) : Prop where
  adds : ∀ a, op.adding = some a → (getFreeIndex (c.free a.pool)).isSome →
    (getFreeIndex c.sramFreeList).isSome → op.exchanges.1.executes arrived = true
  deletes : ∀ q, op.query = some q → op.exchanges.2.executes arrived = true →
    op.exchanges.2 = .done

/-- Nothing is installed when lists or databases are dropped or made, and calls finish. -/
def Router.Orderly (r : Router) (c : Call) (_ : Router) : Prop :=
  (r.Rebuilds c → ∀ d, r.conf.db d = []) ∧
  match c with
  | .start (.code filters) => ∀ exceptions, (filters exceptions).1.executes (filters exceptions).2
  | .op op arrived => op.Finishes arrived r.conf
  | _ => True

/-- The databases are empty when the index lists are made. -/
def Router.CleanStart (r : Router) : Call → Router → Prop
  | .start (.noInit _ _), _ => True
  | .start _, _ => r.started = false → ∀ d, r.initTcam.conf.db d = []
  | _, _ => True

def Router.step (sm : SearchMachine) (r : Router) (c : Call) (r' : Router) : Prop :=
  r.exec sm c = r'

/-- The run of a list of calls. -/
def Router.calls (sm : SearchMachine) (r : Router) : List Call → List (Call × Router)
  | [] => []
  | x :: xs => (x,r.exec sm x) :: (r.exec sm x).calls sm xs

theorem Router.isRun_calls (sm : SearchMachine) (r : Router) (xs : List Call) :
    IsRun (Router.step sm) r (r.calls sm xs) := by
  induction xs generalizing r with
  | nil => trivial
  | cons x xs ih => exact ⟨rfl,ih _⟩

/-- Every installed entry is in the SRAM map. -/
def Tracked (c : Configuration) : Prop :=
  ∀ d, ∀ e ∈ c.db d, sramAddr e.result ∈ c.srmap.map Prod.fst

/-- The SRAM map holds the addresses of the installed entries and no others, each once, and no two
entries share one. -/
structure Mirrors (c : Configuration) : Prop where
  nodup : (c.srmap.map Prod.fst).Nodup
  keys : ∀ a, a ∈ c.srmap.map Prod.fst ↔ ∃ d, ∃ e ∈ c.db d, sramAddr e.result = a
  one : ∀ d, ∀ e ∈ c.db d, ∀ d', ∀ e' ∈ c.db d', sramAddr e.result = sramAddr e'.result →
    (⟨d, e⟩ : (d : Db) × TcamEntry d) = ⟨d', e'⟩

/-! ### What a call can do -/

variable {sm : SearchMachine} {d : Db} {pool : Pool} {c c' : Configuration}

/-- A call that adds is refused for want of an index, fails with its indices gone, or installs. -/
theorem addEntry_cases (d : Db) (pool : Pool) (key mask : Key d) (word : ℕ → ℕ)
    (result : RouteResult ⊕ AfilterResult) (x : Exchange) (c : Configuration) :
    (getFreeIndex (c.free pool) = none ∧
      addEntry d pool key mask word result x c = (.error "no more free TCAM entries", c)) ∨
    (∃ i l, getFreeIndex (c.free pool) = some (i, l) ∧ getFreeIndex c.sramFreeList = none ∧
      addEntry d pool key mask word result x c =
        (.error "no more free TCAM entries", c.setFree pool l)) ∨
    ∃ i l j l', getFreeIndex (c.free pool) = some (i, l) ∧
      getFreeIndex c.sramFreeList = some (j, l') ∧
      ((x = .done ∧ addEntry d pool key mask word result x c =
          (.ok (), c.installed d pool key mask word result i l j l')) ∨
        (x ≠ .done ∧ ∃ text, addEntry d pool key mask word result x c =
          (.error text, { c.installed d pool key mask word result i l j l' with db := c.db }))) := by
  unfold addEntry
  cases hi : getFreeIndex (c.free pool) with
  | none => exact .inl ⟨rfl,rfl⟩
  | some il =>
    obtain ⟨i,l⟩ := il
    simp only
    have hsram : (c.setFree pool l).sramFreeList = c.sramFreeList := rfl
    cases hj : getFreeIndex (c.setFree pool l).sramFreeList with
    | none => exact .inr (.inl ⟨i,l,rfl,hsram ▸ hj,rfl⟩)
    | some jl =>
      obtain ⟨j,l'⟩ := jl
      refine .inr (.inr ⟨i,l,j,l',rfl,hsram ▸ hj,?_⟩)
      cases x with
      | dead text => exact .inr ⟨by simp,text,rfl⟩
      | fault => exact .inr ⟨by simp,_,rfl⟩
      | done => exact .inl ⟨rfl,rfl⟩

/-- A call that deletes throws and leaves everything as it was, or deletes the entry that its lookup
has found. -/
theorem delEntry_cases (ho : Owned c) (ht : Tracked c) (sm : SearchMachine) (key : Key d)
    (query delete : Exchange) :
    (¬(query = .done ∧ delete = .done ∧ (sm.lookupFltr d (c.db d) key).isSome) ∧
      ∃ text, delEntry sm d (delPool d) key query delete c = (.error text, c)) ∨
    ∃ e ∈ c.db d, ∃ m, query = .done ∧ delete = .done ∧
      sm.lookupFltr d (c.db d) key = some e.result ∧
      delSramMap (sramAddr e.result) c.srmap = some m ∧
      delEntry sm d (delPool d) key query delete c =
        (.ok (), c.deleted d (delPool d e.index) e.index (sramAddr2index (sramAddr e.result)) m) := by
  cases query with
  | dead text => exact .inl ⟨by simp,text,rfl⟩
  | fault => exact .inl ⟨by simp,_,rfl⟩
  | done =>
    cases hl : sm.lookupFltr d (c.db d) key with
    | none =>
      refine .inl ⟨by simp,"response from tcamd too small",?_⟩
      simp only [delEntry,hl]
    | some word =>
      obtain ⟨e,he,rfl⟩ := sm.lookup_mem d (c.db d) key word hl
      cases delete with
      | dead text => exact .inl ⟨by simp,text,by simp only [delEntry,hl]⟩
      | fault => exact .inl ⟨by simp,_,by simp only [delEntry,hl]; rfl⟩
      | done =>
        obtain ⟨m,hm,-⟩ := delSramMap_spec (ht d e he)
        refine .inr ⟨e,he,m,rfl,rfl,rfl,hm,?_⟩
        simp only [delEntry,hl,ho.sramIndex d e he]
        erw [hm]
        rfl

/-- What `call` does with the exchange of an adding call: the TCAM daemon has installed the entry, or
it has not. -/
theorem call_addEntry {op : Op} {a : AddReq} {x : Exchange}
    (h : exec sm op c = addEntry a.d a.pool a.key a.mask a.word a.result x c)
    (h' : exec sm op.arrived c = addEntry a.d a.pool a.key a.mask a.word a.result x.arrived c)
    (arrived : Bool) :
    (call sm op arrived c).2 = c ∨
    ∃ i l, getFreeIndex (c.free a.pool) = some (i, l) ∧
      (getFreeIndex c.sramFreeList = none ∧ (call sm op arrived c).2 = c.setFree a.pool l ∨
      ∃ j l', getFreeIndex c.sramFreeList = some (j, l') ∧
        (call sm op arrived c).2 =
          if x.executes arrived then c.installed a.d a.pool a.key a.mask a.word a.result i l j l'
          else { c.installed a.d a.pool a.key a.mask a.word a.result i l j l' with db := c.db }) := by
  simp only [call,h,h',addEntry]
  cases hi : getFreeIndex (c.free a.pool) with
  | none =>
    left
    cases arrived <;> rfl
  | some il =>
    obtain ⟨i,l⟩ := il
    refine .inr ⟨i,l,rfl,?_⟩
    simp only [Configuration.setFree]
    cases hj : getFreeIndex c.sramFreeList with
    | none =>
      left
      cases arrived <;> exact ⟨rfl,rfl⟩
    | some jl =>
      obtain ⟨j,l'⟩ := jl
      refine .inr ⟨j,l',rfl,?_⟩
      cases x <;> cases arrived <;> rfl

/-- A call that deletes changes nothing, deletes the entry its lookup has found, or has it removed
without learning of it. -/
theorem call_delEntry (ho : Owned c) (ht : Tracked c) {op : Op} {key : Key d}
    {query delete : Exchange} (h : exec sm op c = delEntry sm d (delPool d) key query delete c)
    (h' : exec sm op.arrived c = delEntry sm d (delPool d) key query delete.arrived c)
    (arrived : Bool) :
    (call sm op arrived c).2 = c ∨
    ∃ e ∈ c.db d,
      (∃ m, delSramMap (sramAddr e.result) c.srmap = some m ∧ (call sm op arrived c).2 =
        c.deleted d (delPool d e.index) e.index (sramAddr2index (sramAddr e.result)) m) ∨
      (∃ text, delete = .dead text) ∧ arrived = true ∧
        (call sm op arrived c).2 = removeIndex d e.index c := by
  have hc := delEntry_cases ho ht sm key query delete
  have hc' := delEntry_cases ho ht sm key query delete.arrived
  rw [← h] at hc
  rw [← h'] at hc'
  unfold call
  obtain ⟨hno,t,he⟩ | ⟨e,hin,m,rfl,rfl,hl,hm,he⟩ := hc
  · obtain ⟨-,t',he'⟩ | ⟨e,hin,m,rfl,hd,hl,hm,he'⟩ := hc'
    · left
      rw [he,he']
      cases arrived <;> rfl
    · cases arrived with
      | false =>
        left
        rw [he]
        rfl
      | true =>
        refine .inr ⟨e,hin,.inr ⟨?_,rfl,?_⟩⟩
        · cases delete with
          | dead text => exact ⟨text,rfl⟩
          | fault => cases hd
          | done => exact absurd ⟨rfl,rfl,by rw [hl]; rfl⟩ hno
        · rw [he,he']
          rfl
  · refine .inr ⟨e,hin,.inl ⟨m,hm,?_⟩⟩
    have harr : exec sm op.arrived c = exec sm op c := by rw [h,h']; rfl
    rw [harr,he]
    cases arrived <;> rfl

/-- Every call is refused for its priority, adds or deletes. -/
theorem exec_kinds (sm : SearchMachine) (op : Op) (c : Configuration) :
    (exec sm op c = (.error "invalid priority", c) ∧
      exec sm op.arrived c = (.error "invalid priority", c)) ∨
    (∃ a, op.adding = some a ∧
      exec sm op c = addEntry a.d a.pool a.key a.mask a.word a.result op.exchanges.1 c ∧
      exec sm op.arrived c =
        addEntry a.d a.pool a.key a.mask a.word a.result op.exchanges.1.arrived c) ∨
    ∃ d, ∃ key : Key d, op.query = some ⟨d,key⟩ ∧
      exec sm op c = delEntry sm d (delPool d) key op.exchanges.1 op.exchanges.2 c ∧
      exec sm op.arrived c =
        delEntry sm d (delPool d) key op.exchanges.1 op.exchanges.2.arrived c := by
  cases op with
  | addRoute key mask result x => exact .inr (.inl ⟨_,rfl,rfl,rfl⟩)
  | addPfilter key mask priority result x =>
    by_cases hp : priority > maxPriority
    · exact .inl ⟨if_pos hp,if_pos hp⟩
    · exact .inr (.inl ⟨_,if_neg hp,if_neg hp,if_neg hp⟩)
  | addAfilter key mask priority result x =>
    by_cases hp : priority > maxPriority
    · exact .inl ⟨if_pos hp,if_pos hp⟩
    · exact .inr (.inl ⟨_,if_neg hp,if_neg hp,if_neg hp⟩)
  | delRoute key query delete => exact .inr (.inr ⟨.route,key,rfl,rfl,rfl⟩)
  | delPfilter key query delete => exact .inr (.inr ⟨.pfilter,key,rfl,rfl,rfl⟩)
  | delAfilter key query delete => exact .inr (.inr ⟨.afilter,key,rfl,rfl,rfl⟩)

/-! ### Ownership and the SRAM map over runs -/

/-- Two installed entries with the same SRAM address are the same entry. -/
theorem Owned.eq_of_addr (ho : Owned c) {d d' : Db} {e : TcamEntry d} {e' : TcamEntry d'}
    (he : e ∈ c.db d) (he' : e' ∈ c.db d') (h : sramAddr e.result = sramAddr e'.result) :
    (⟨d, e⟩ : (d : Db) × TcamEntry d) = ⟨d', e'⟩ := by
  obtain ⟨rfl,hi⟩ := ho.sramOne d d' e he e' he' h
  rw [ho.eq_of_index he he' hi]

/-- Entries may go from the databases. -/
theorem Owned.withDb (ho : Owned c) {db : (d : Db) → List (TcamEntry d)}
    (h : ∀ d, (db d).Sublist (c.db d)) : Owned { c with db := db } where
  home d e he := ho.home d e ((h d).subset he)
  ordered := ho.ordered
  sramOrdered := ho.sramOrdered
  sramWithin := ho.sramWithin
  disjoint := ho.disjoint
  used d e he := ho.used d e ((h d).subset he)
  nodup d := (ho.nodup d).sublist ((h d).map _)
  sramUsed d e he := ho.sramUsed d e ((h d).subset he)
  sramIndex d e he := ho.sramIndex d e ((h d).subset he)
  sramOne d d' e he e' he' := ho.sramOne d d' e ((h d).subset he) e' ((h d').subset he')

theorem sublist_installed (c : Configuration) (d : Db) (pool : Pool) (key mask : Key d)
    (word : ℕ → ℕ) (result : RouteResult ⊕ AfilterResult) (i : ℕ) (l : IndexList) (j : ℕ)
    (l' : IndexList) (d' : Db) :
    (c.db d').Sublist ((c.installed d pool key mask word result i l j l').db d') := by
  by_cases hd : d' = d
  · subst hd
    simp [Configuration.installed]
  · simp [Configuration.installed,Function.update_of_ne hd]

theorem mem_installed {key mask : Key d} {word : ℕ → ℕ} {result : RouteResult ⊕ AfilterResult}
    {i j : ℕ} {l l' : IndexList} {d' : Db} {e : TcamEntry d'} :
    e ∈ (c.installed d pool key mask word result i l j l').db d' ↔
      (∃ hd : d' = d, e = hd ▸ ⟨pool, i, key, mask, word (sramIndex2addr j)⟩) ∨ e ∈ c.db d' := by
  by_cases hd : d' = d
  · subst hd
    simp [Configuration.installed]
  · simp [Configuration.installed,hd]

theorem mem_db_deleted (ho : Owned c) {e : TcamEntry d} (he : e ∈ c.db d) {j : ℕ}
    {m : List (ℕ × ℕ)} {d' : Db} {e' : TcamEntry d'} :
    e' ∈ (c.deleted d pool e.index j m).db d' ↔
      e' ∈ c.db d' ∧ (⟨d', e'⟩ : (d : Db) × TcamEntry d) ≠ ⟨d, e⟩ := by
  by_cases hd : d' = d
  · subst hd
    simp only [Configuration.deleted,Function.update_self,ho.mem_deleted he]
    simp
  · simp [Configuration.deleted,hd]

/-- The lists after a TCAM index was taken in vain. -/
theorem Owned.setFree (ho : Owned c) {i : ℕ} {l : IndexList}
    (h : getFreeIndex (c.free pool) = some (i, l)) : Owned (c.setFree pool l) := by
  obtain ⟨hol,-,hcl⟩ := getFreeIndex_spec (ho.ordered pool) h
  refine ho.shrink rfl rfl (fun p => ?_) ho.sramOrdered (fun p k hk => ?_) fun _ => id
  · by_cases hp : p = pool
    · subst hp
      simpa [Configuration.setFree] using hol
    · simpa [Configuration.setFree,Function.update_of_ne hp] using ho.ordered p
  · by_cases hp : p = pool
    · subst hp
      simp only [Configuration.setFree,Function.update_self] at hk
      exact ((hcl k).mp hk).1
    · simpa [Configuration.setFree,Function.update_of_ne hp] using hk

/-- Every call keeps what is owned, and every installed entry in the map. -/
theorem tracked_call (ho : Owned c) (ht : Tracked c) (sm : SearchMachine) (op : Op)
    (arrived : Bool) :
    Owned (call sm op arrived c).2 ∧ Tracked (call sm op arrived c).2 := by
  obtain ⟨h,h'⟩ | ⟨a,ha,h,h'⟩ | ⟨d,key,-,h,h'⟩ := exec_kinds sm op c
  · have hc : (call sm op arrived c).2 = c := by
      simp only [call,h,h']
      cases arrived <;> rfl
    rw [hc]
    exact ⟨ho,ht⟩
  · obtain ⟨hd,hk⟩ := SharedConf.adding_spec ha
    obtain hc | ⟨i,l,hi,⟨-,hc⟩ | ⟨j,l',hj,hc⟩⟩ := call_addEntry h h' arrived
    · rw [hc]
      exact ⟨ho,ht⟩
    · rw [hc]
      exact ⟨ho.setFree hi,ht⟩
    · have hin : Owned (c.installed a.d a.pool a.key a.mask a.word a.result i l j l') :=
        ho.install hd hi hj hk
      have hj2 := (getFreeIndex_within ho.sramOrdered ho.sramWithin hj).2.2
      rw [hc]
      split
      · refine ⟨hin,fun d' e he => ?_⟩
        obtain ⟨rfl,rfl⟩ | he := mem_installed.mp he
        · show sramAddr (a.word (sramIndex2addr j)) ∈ _
          rw [hk j hj2]
          exact List.mem_cons_self
        · exact List.mem_cons_of_mem _ (ht d' e he)
      · exact ⟨hin.withDb (sublist_installed c _ _ _ _ _ _ _ _ _ _),
          fun d' e he => List.mem_cons_of_mem _ (ht d' e he)⟩
  · obtain hc | ⟨e,he,⟨m,hm,hc⟩ | ⟨-,-,hc⟩⟩ := call_delEntry ho ht h h' arrived
    · rw [hc]
      exact ⟨ho,ht⟩
    · rw [hc]
      refine ⟨ho.delete he (delPool_db d e.index) m,fun d' e' he' => ?_⟩
      obtain ⟨hin,hne⟩ := (mem_db_deleted ho he).mp he'
      obtain ⟨m',hm',-,hkeep,-⟩ := delSramMap_spec (ht d e he)
      cases hm.symm.trans hm'
      obtain ⟨p,hp,hpa⟩ := List.mem_map.mp (ht d' e' hin)
      refine List.mem_map.mpr ⟨p,hkeep p hp fun hpe => hne ?_,hpa⟩
      exact ho.eq_of_addr hin he (hpa.symm.trans hpe)
    · rw [hc]
      exact ⟨ho.remove d e.index,fun d' e' he' => ht d' e' (mem_removeIndex he').1⟩

theorem initTcam_sublist (r : Router) (d : Db) : (r.initTcam.conf.db d).Sublist (r.conf.db d) := by
  unfold Router.initTcam
  split
  · exact List.Sublist.refl _
  · exact List.nil_sublist _

theorem tracked_initTcam {r : Router} (h : Owned r.conf ∧ Tracked r.conf) :
    Owned r.initTcam.conf ∧ Tracked r.initTcam.conf := by
  have hc : r.initTcam.conf = { r.conf with db := r.initTcam.conf.db } := by
    unfold Router.initTcam
    split <;> rfl
  rw [hc]
  exact ⟨h.1.withDb (initTcam_sublist r),fun d e he => h.2 d e ((initTcam_sublist r d).subset he)⟩

/-- Without entries the lists that `start_router` makes are those of `startLists`. -/
theorem makeLists_conf {r : Router} (h : ∀ d, r.conf.db d = []) :
    r.makeLists.conf = startLists r.conf.srmap r.conf.nextId r.conf.sram := by
  have hdb : r.conf.db = fun _ => [] := funext h
  unfold Router.makeLists
  rw [hdb]
  rfl

theorem tracked_makeLists {r : Router} (h : ∀ d, r.conf.db d = []) :
    Owned r.makeLists.conf ∧ Tracked r.makeLists.conf := by
  rw [makeLists_conf h]
  exact ⟨owned_startLists _ _ _,fun d e he => absurd he List.not_mem_nil⟩

theorem tracked_freeLists {r : Router} (h : Owned r.conf ∧ Tracked r.conf) :
    Owned r.freeLists.conf ∧ Tracked r.freeLists.conf :=
  ⟨h.1.shrink rfl rfl (fun _ => ordered_nil) ordered_nil
    (fun _ k hk => absurd hk (covers_nil k)) (fun k hk => absurd hk (covers_nil k)),h.2⟩

theorem tracked_stopTcam {r : Router} (h : Owned r.conf ∧ Tracked r.conf) :
    Owned r.stopTcam.conf ∧ Tracked r.stopTcam.conf :=
  ⟨h.1.withDb fun _ => List.nil_sublist _,fun _ _ he => absurd he List.not_mem_nil⟩

/-- The rule for the default filters: what every one of the calls keeps. -/
theorem addDefFilters_rule {P : Configuration → Prop} {filters : ℕ → Exchange × Bool}
    (hcall : ∀ exceptions c, P c → P (call sm (.addPfilter (defFilterKey exceptions)
      (defFilterKey exceptions) 60 defFilterResult (filters exceptions).1)
      (filters exceptions).2 c).2)
    {l : List ℕ} (hc : P c) : P (addDefFilters sm filters l c).2 := by
  induction l generalizing c with
  | nil => exact hc
  | cons exceptions rest ih =>
    have hn := hcall exceptions c hc
    unfold addDefFilters
    split
    · next c' h =>
      rw [h] at hn
      exact ih hn
    · next text c' h =>
      rw [h] at hn
      exact hn

theorem tracked_exec {r : Router} {x : Call} (h : Owned r.conf ∧ Tracked r.conf)
    (hc : r.CleanStart x (r.exec sm x)) :
    Owned (r.exec sm x).conf ∧ Tracked (r.exec sm x).conf := by
  cases x with
  | op op arrived => exact tracked_call h.1 h.2 sm op arrived
  | stop x =>
    simp only [Router.exec,Router.stopRouter]
    split
    · cases x with
      | dead arrived =>
        cases arrived with
        | false => exact tracked_freeLists h
        | true => exact tracked_stopTcam (tracked_freeLists h)
      | fault => exact tracked_freeLists h
      | done => exact tracked_stopTcam (tracked_freeLists h)
    · exact h
  | start x =>
    simp only [Router.exec,Router.startRouter]
    split
    · exact h
    · next hstop =>
      have hstop : r.started = false := by simpa using hstop
      cases x with
      | noInit arrived text =>
        cases arrived with
        | false => exact h
        | true => exact tracked_initTcam h
      | noCode text => exact tracked_makeLists (hc hstop)
      | code filters =>
        exact addDefFilters_rule (P := fun c => Owned c ∧ Tracked c)
          (fun _ _ h => tracked_call h.1 h.2 sm _ _) (tracked_makeLists (hc hstop))

theorem tracked_new (sram : ℕ → SramWords) :
    Owned (Router.new sram).conf ∧ Tracked (Router.new sram).conf := by
  refine ⟨⟨?_,fun _ => ordered_nil,ordered_nil,within_nil _ _,?_,?_,fun _ => List.nodup_nil,?_,?_,
    ?_⟩,?_⟩
  · exact fun _ _ he => absurd he List.not_mem_nil
  · exact fun _ _ i _ hi => absurd hi (covers_nil i)
  · exact fun _ _ he => absurd he List.not_mem_nil
  · exact fun _ _ he => absurd he List.not_mem_nil
  · exact fun _ _ he => absurd he List.not_mem_nil
  · exact fun _ _ _ he => absurd he List.not_mem_nil
  · exact fun _ _ he => absurd he List.not_mem_nil

theorem Mirrors.tracked (h : Mirrors c) : Tracked c :=
  fun d e he => (h.keys _).mpr ⟨d,e,he,rfl⟩

/-- `Mirrors` is about the map and the databases. -/
theorem Mirrors.congr (h : Mirrors c) (hmap : c'.srmap = c.srmap) (hdb : c'.db = c.db) :
    Mirrors c' :=
  ⟨hmap ▸ h.nodup,by rw [hmap,hdb]; exact h.keys,by rw [hdb]; exact h.one⟩

theorem mirrors_empty (hmap : c.srmap = []) (hdb : ∀ d, c.db d = []) : Mirrors c := by
  refine ⟨by rw [hmap]; exact List.nodup_nil,fun a => ?_,fun d e he => ?_⟩
  · rw [hmap]
    constructor
    · exact fun h => absurd h List.not_mem_nil
    · rintro ⟨d,e,he,-⟩
      rw [hdb d] at he
      exact absurd he List.not_mem_nil
  · rw [hdb d] at he
    exact absurd he List.not_mem_nil

theorem Mirrors.srmap_nil (h : Mirrors c) (hdb : ∀ d, c.db d = []) : c.srmap = [] := by
  rw [List.eq_nil_iff_forall_not_mem]
  intro p hp
  obtain ⟨d,e,he,-⟩ := (h.keys p.1).mp (List.mem_map_of_mem hp)
  rw [hdb d] at he
  exact absurd he List.not_mem_nil

/-- An entry is installed at an SRAM address that no other has, and the map gets the address. -/
theorem Mirrors.install (h : Mirrors c) (ho : Owned c) (hd : pool.db = d) {key mask : Key d}
    {word : ℕ → ℕ} {result : RouteResult ⊕ AfilterResult} {i j : ℕ} {l l' : IndexList}
    (hi : getFreeIndex (c.free pool) = some (i, l))
    (hj : getFreeIndex c.sramFreeList = some (j, l')) (hk : KeepsAddr word) :
    Mirrors (c.installed d pool key mask word result i l j l') := by
  have hin : Owned (c.installed d pool key mask word result i l j l') := ho.install hd hi hj hk
  have hj2 := (getFreeIndex_within ho.sramOrdered ho.sramWithin hj).2.2
  have hjc := (getFreeIndex_spec ho.sramOrdered hj).2.1
  have hmap : (c.installed d pool key mask word result i l j l').srmap.map Prod.fst =
      sramIndex2addr j :: c.srmap.map Prod.fst := rfl
  refine ⟨?_,fun a => ?_,fun d₁ e₁ h₁ d₂ e₂ h₂ => hin.eq_of_addr h₁ h₂⟩
  · rw [hmap,List.nodup_cons]
    refine ⟨fun hmem => ?_,h.nodup⟩
    obtain ⟨d',e,he,ha⟩ := (h.keys _).mp hmem
    obtain ⟨k,-,hka,hkc⟩ := ho.sramUsed d' e he
    exact hkc (sramIndex2addr_injective (hka.symm.trans ha) ▸ hjc)
  · rw [hmap,List.mem_cons,h.keys a]
    constructor
    · rintro (rfl | ⟨d',e,he,ha⟩)
      · exact ⟨d,_,mem_installed.mpr (.inl ⟨rfl,rfl⟩),hk j hj2⟩
      · exact ⟨d',e,mem_installed.mpr (.inr he),ha⟩
    · rintro ⟨d',e,he,ha⟩
      obtain ⟨rfl,rfl⟩ | he := mem_installed.mp he
      · exact .inl (ha.symm.trans (hk j hj2))
      · exact .inr ⟨d',e,he,ha⟩

/-- The entry that is deleted and its address go together. -/
theorem Mirrors.delete (h : Mirrors c) (ho : Owned c) {e : TcamEntry d} (he : e ∈ c.db d)
    {j : ℕ} {m : List (ℕ × ℕ)} (hm : delSramMap (sramAddr e.result) c.srmap = some m) :
    Mirrors (c.deleted d pool e.index j m) := by
  obtain ⟨m',hm',hsub,hkeep,hgone⟩ := delSramMap_spec (h.tracked d e he)
  cases hm.symm.trans hm'
  refine ⟨h.nodup.sublist (hsub.map _),fun a => ?_,fun d₁ e₁ h₁ d₂ e₂ h₂ => ?_⟩
  · show a ∈ m.map Prod.fst ↔ _
    constructor
    · intro ha
      obtain ⟨d',e',he',ha'⟩ := (h.keys a).mp ((hsub.map _).subset ha)
      refine ⟨d',e',(mem_db_deleted ho he).mpr ⟨he',fun heq => ?_⟩,ha'⟩
      cases heq
      exact hgone h.nodup (ha' ▸ ha)
    · rintro ⟨d',e',he',rfl⟩
      obtain ⟨he',hne⟩ := (mem_db_deleted ho he).mp he'
      obtain ⟨p,hp,hpa⟩ := List.mem_map.mp (h.tracked d' e' he')
      exact List.mem_map.mpr
        ⟨p,hkeep p hp fun hpe => hne (ho.eq_of_addr he' he (hpa.symm.trans hpe)),hpa⟩
  · exact h.one d₁ e₁ ((mem_db_deleted ho he).mp h₁).1 d₂ e₂ ((mem_db_deleted ho he).mp h₂).1

theorem mirrors_call (ho : Owned c) (h : Mirrors c) {op : Op} {arrived : Bool}
    (hf : op.Finishes arrived c) : Mirrors (call sm op arrived c).2 := by
  obtain ⟨h₁,h₂⟩ | ⟨a,ha,h₁,h₂⟩ | ⟨d,key,hq,h₁,h₂⟩ := exec_kinds sm op c
  · have hc : (call sm op arrived c).2 = c := by
      simp only [call,h₁,h₂]
      cases arrived <;> rfl
    rwa [hc]
  · obtain ⟨hd,hk⟩ := SharedConf.adding_spec ha
    obtain hc | ⟨i,l,hi,⟨-,hc⟩ | ⟨j,l',hj,hc⟩⟩ := call_addEntry h₁ h₂ arrived
    · rwa [hc]
    · rw [hc]
      exact h.congr rfl rfl
    · have hx := hf.adds a ha (by rw [hi]; rfl) (by rw [hj]; rfl)
      rw [hc,if_pos hx]
      exact h.install ho hd hi hj hk
  · obtain hc | ⟨e,he,⟨m,hm,hc⟩ | ⟨⟨text,hx⟩,harr,hc⟩⟩ :=
      call_delEntry ho h.tracked h₁ h₂ arrived
    · rwa [hc]
    · rw [hc]
      exact h.delete ho he hm
    · have := hf.deletes _ hq (by rw [hx,harr]; rfl)
      rw [hx] at this
      cases this

theorem mirrors_exec {r : Router} {x : Call} (ho : Owned r.conf) (h : Mirrors r.conf)
    (hc : r.Orderly x (r.exec sm x)) : Owned (r.exec sm x).conf ∧ Mirrors (r.exec sm x).conf := by
  obtain ⟨hempty,hc⟩ := hc
  have hclean : r.CleanStart x (r.exec sm x) := by
    have hinit : (∀ d, r.conf.db d = []) → ∀ d, r.initTcam.conf.db d = [] := fun hdb d =>
      List.sublist_nil.mp (hdb d ▸ initTcam_sublist r d)
    cases x with
    | op op arrived => trivial
    | stop x => trivial
    | start x =>
      cases x with
      | noInit arrived text => trivial
      | noCode text => exact fun hs => hinit (hempty hs)
      | code filters => exact fun hs => hinit (hempty hs)
  refine ⟨(tracked_exec ⟨ho,h.tracked⟩ hclean).1,?_⟩
  cases x with
  | op op arrived => exact mirrors_call ho h hc
  | stop x =>
    simp only [Router.exec,Router.stopRouter]
    split
    · next hstart =>
      cases x with
      | dead arrived =>
        cases arrived with
        | false => exact h.congr rfl rfl
        | true => exact mirrors_empty (h.srmap_nil (hempty ⟨hstart,rfl⟩)) fun _ => rfl
      | fault => exact h.congr rfl rfl
      | done => exact mirrors_empty (h.srmap_nil (hempty hstart)) fun _ => rfl
    · exact h
  | start x =>
    simp only [Router.exec,Router.startRouter]
    split
    · exact h
    · next hstop =>
      have hstop : r.started = false := by simpa using hstop
      cases x with
      | noInit arrived text =>
        cases arrived with
        | false => exact h
        | true =>
          by_cases hinit : r.tcamInit = true
          · exact h.congr (by simp [Router.initTcam,hinit]) (by simp [Router.initTcam,hinit])
          · have hinit : r.tcamInit = false := by simpa using hinit
            have hdb := hempty ⟨hstop,rfl,hinit⟩
            refine mirrors_empty ?_ fun d => ?_
            · simp [Router.initTcam,hinit,h.srmap_nil hdb]
            · simp [Router.initTcam,hinit]
      | noCode text =>
        have hdb := hempty hstop
        refine mirrors_empty ?_ (hclean hstop)
        show r.initTcam.conf.srmap = []
        unfold Router.initTcam
        split <;> exact h.srmap_nil hdb
      | code filters =>
        have hdb := hempty hstop
        have hmap : r.initTcam.conf.srmap = [] := by
          unfold Router.initTcam
          split <;> exact h.srmap_nil hdb
        have hmade := tracked_makeLists (hclean hstop)
        refine (addDefFilters_rule (P := fun c => Owned c ∧ Mirrors c) (fun exceptions c' h' => ?_)
          ⟨hmade.1,mirrors_empty hmap (hclean hstop)⟩).2
        refine ⟨(tracked_call h'.1 h'.2.tracked sm _ _).1,mirrors_call h'.1 h'.2 ⟨?_,?_⟩⟩
        · exact fun _ _ _ _ => hc exceptions
        · rintro q hq
          cases hq

/-- In every run in which routers start and stop with nothing installed, and the calls that take
indices install their entries and those that have an entry removed learn of it, the SRAM map holds
the addresses of the installed entries in every state. -/
theorem mirrors_run {sram : ℕ → SramWords} {tr : List (Call × Router)}
    (hr : IsRun (Router.step sm) (Router.new sram) tr)
    (hc : EveryStep Router.Orderly (Router.new sram) tr) :
    EveryState (fun r => Mirrors r.conf) (Router.new sram) tr := by
  have hall := hr.everyState (P := fun r => Owned r.conf ∧ Mirrors r.conf)
    (C := Router.Orderly) ?_ ⟨(tracked_new sram).1,mirrors_empty rfl fun _ => rfl⟩ hc
  · exact hall.mono fun r h => h.2
  · rintro r x r' ⟨ho,h⟩ rfl horderly
    exact mirrors_exec ho h horderly

/-- A route is added and deleted. -/
theorem mirrors_run_route : EveryState (fun r => Mirrors r.conf) (Router.new blankSram)
    ((Router.new blankSram).calls tcam [.start (.code fun _ => (.done, false)),
      .op (.addRoute (unicastKey 0x0a000000) (unicastKey 0xff000000) noResult .done) false,
      .op (.delRoute (unicastKey 0x0a000001) .done .done) false]) := by
  refine mirrors_run (Router.isRun_calls _ _ _) ⟨⟨fun _ _ => rfl,fun _ => rfl⟩,?_,?_,trivial⟩
  · exact ⟨False.elim,⟨fun _ _ _ _ => rfl,fun _ h => (nomatch h)⟩⟩
  · exact ⟨False.elim,⟨fun _ h => (nomatch h),fun _ _ _ => rfl⟩⟩

/-- A router that was started and stopped has its default filters in the map, and one whose TCAM
daemon refuses a route has the route there. -/
theorem mirrors_broken :
    (∃ tr, IsRun (Router.step tcam) (Router.new blankSram) tr ∧
      tr.map Prod.fst = [.start (.code fun _ => (.done, false)), .stop .done] ∧
      ¬EveryState (fun r => Mirrors r.conf) (Router.new blankSram) tr) ∧
    ∃ tr, IsRun (Router.step tcam) (Router.new blankSram) tr ∧
      tr.map Prod.fst = [.start (.code fun _ => (.done, false)),
        .op (.addRoute (unicastKey 0x0a000000) (unicastKey 0xff000000) noResult .fault) false] ∧
      ¬EveryState (fun r => Mirrors r.conf) (Router.new blankSram) tr := by
  refine ⟨⟨_,Router.isRun_calls tcam _ [.start (.code fun _ => (.done, false)), .stop .done],rfl,
    fun h => ?_⟩,⟨_,Router.isRun_calls tcam _ [.start (.code fun _ => (.done, false)),
      .op (.addRoute (unicastKey 0x0a000000) (unicastKey 0xff000000) noResult .fault) false],rfl,
    fun h => ?_⟩⟩
  · have hmap := h.last.srmap_nil fun _ => rfl
    exact List.cons_ne_nil _ _ hmap
  · -- the address of the route is 80
    obtain ⟨d,e,he,ha⟩ := (h.last.keys 80).mp (by decide +kernel)
    revert e
    cases d <;> decide +kernel

end OnlDaemons.Npr
