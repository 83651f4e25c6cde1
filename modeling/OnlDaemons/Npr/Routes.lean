import OnlDaemons.Npr.Filters

/-!
# Prefix lengths in the route TCAM

The route TCAM answers with the longest prefix because a longer prefix lies at lower indices.
`del_route` recomputes the prefix length from the TCAM index. It takes the unicast list for
length 1 to lie in the class after length 2, as the multicast one does, but `start_router`
puts it in the class of length 0, so `del_route` gives its indices to the list for length 0.

## Main results

- `RoutesPlaced` — indices lie in the intervals of their prefix lengths
- `RecomputesLength` — the prefix length recomputed from an index is the one it was taken for
- `routesPlaced_iff` — the runs in which these hold throughout
-/

namespace OnlDaemons.Npr
open OnlDaemons.Lib OnlDaemons.Lib.RangeList

variable {sm : SearchMachine} {c c' : Configuration} {op : Op}

/-- The route lists. -/
def Pool.IsRoute (pool : Pool) : Prop := pool.db = .route

def TcamEntry.IsUnicast {d : Db} (e : TcamEntry d) : Prop := ∃ n, e.pool = .ucRoutes n

def TcamEntry.prefixLength (e : TcamEntry .route) : ℕ := getPrefixLength (RouteKey.daddr e.mask)

/-- Free ranges and installed routes lie in the interval of their length, and a longer unicast
prefix lies at lower indices. -/
structure RoutesPlaced (c : Configuration) : Prop where
  free : ∀ p : Pool, p.IsRoute → ∀ r ∈ c.free p,
    ∃ b, layout p = some b ∧ b.left ≤ r.left ∧ r.right ≤ b.right
  installed : ∀ e ∈ c.db .route, e.IsUnicast → InPool (.ucRoutes e.prefixLength) e.index
  intervals : ∀ n m i j, n < m → InPool (.ucRoutes n) i → InPool (.ucRoutes m) j → j < i
  longer : ∀ e ∈ c.db .route, ∀ e' ∈ c.db .route, e.IsUnicast → e'.IsUnicast →
    e'.prefixLength < e.prefixLength → e.index < e'.index

/-- `del_route` would give the index of every installed route back to the list `add_route`
took it from. -/
def RecomputesLength (c : Configuration) : Prop :=
  ∀ e ∈ c.db .route, delRoutePool e.index = e.pool

/-- `add_route` of a unicast route of prefix length 1. -/
def Op.AddsLengthOne : Op → Prop
  | .addRoute _ mask result _ => result.ipMcValid ≠ 1 ∧ getPrefixLength mask.daddr = 1
  | _ => False

/-- `del_route` of a key whose lookup finds a unicast route of prefix length 1. -/
def Op.DeletesLengthOne (sm : SearchMachine) (c : Configuration) : Op → Prop
  | .delRoute key _ _ => ∃ e ∈ c.db .route, sm.lookupFltr .route (c.db .route) key = some e.result ∧
      e.IsUnicast ∧ e.prefixLength = 1
  | _ => False

theorem inPool_ucRoutes_lt {n m i j : ℕ} (h : n < m) (hi : InPool (.ucRoutes n) i)
    (hj : InPool (.ucRoutes m) j) : j < i := by
  rw [inPool_iff] at hi hj
  rcases n with _ | _ | n <;> rcases m with _ | _ | m <;> simp at hi hj h <;> omega

/-- Outside the unicast list for length 1 the list recomputed from an index is the right one. -/
theorem delRoutePool_eq {p : Pool} {i : ℕ} (hp : p.IsRoute) (h1 : p ≠ .ucRoutes 1)
    (hi : InPool p i) : delRoutePool i = p := by
  have hm : routeMcNumPerClass = 248 := rfl
  have hu : routeUcNumPerClass = 248 := rfl
  have hl : routeMcLastIndex = 8190 := rfl
  have hf : routeUcFirstIndex = 8193 := rfl
  rw [inPool_iff] at hi
  simp only [delRoutePool,routeMcFirstIndex,routeFirstIndex,maxPrefixLen,hm,hu,hl,hf]
  rcases p with (_ | _ | n) | (_ | _ | n) | n | n
  · simp at hi; subst i; rfl
  · simp at hi
    rw [if_pos (by omega),if_neg (by omega)]
    congr 1
    omega
  · simp at hi
    rw [if_pos (by omega),if_neg (by omega)]
    congr 1
    omega
  · simp at hi; subst i; rfl
  · exact absurd rfl h1
  · simp at hi
    rw [if_neg (by omega),if_neg (by omega)]
    congr 1
    omega
  · cases hp
  · cases hp

/-- Every index of the unicast list for length 1 is recomputed to length 0. -/
theorem delRoutePool_ucRoutes_one {i : ℕ} (hi : InPool (.ucRoutes 1) i) :
    delRoutePool i = .ucRoutes 0 := by
  have hm : routeMcNumPerClass = 248 := rfl
  have hu : routeUcNumPerClass = 248 := rfl
  have hl : routeMcLastIndex = 8190 := rfl
  have hf : routeUcFirstIndex = 8193 := rfl
  rw [inPool_iff] at hi
  simp only at hi
  simp only [delRoutePool,routeMcFirstIndex,routeFirstIndex,maxPrefixLen,hm,hu,hl,hf]
  rw [if_neg (by omega),if_neg (by omega)]
  congr 1
  omega

/-- The mask of an installed unicast route has the length of the list it was taken from. -/
def Tagged (c : Configuration) : Prop :=
  ∀ e ∈ c.db .route, ∀ n, e.pool = .ucRoutes n → e.prefixLength = n

theorem Tagged.step (ho : Owned c) (ht : Tagged c) (h : Step sm c op c') : Tagged c' := by
  obtain ⟨d,pool,key,mask,word,result,i,l,j,l',_,_,hm,_,_,_,rfl⟩ | ⟨d,key,e,_,m,_,_,rfl⟩ :=
    step_cases ho h
  · intro e he n hn
    by_cases hd : d = .route
    · subst hd
      simp only [Configuration.installed,Function.update_self,List.mem_cons] at he
      rcases he with rfl | he
      · exact hm n hn
      · exact ht e he n hn
    · simp only [Configuration.installed,Function.update_of_ne (Ne.symm hd)] at he
      exact ht e he n hn
  · intro e' he n hn
    by_cases hd : d = .route
    · subst hd
      simp only [Configuration.deleted,Function.update_self,List.mem_filter] at he
      exact ht e' he.1 n hn
    · simp only [Configuration.deleted,Function.update_of_ne (Ne.symm hd)] at he
      exact ht e' he n hn

/-- What the routes of a run satisfy as long as no length-1 route is deleted. -/
structure RouteInv (c : Configuration) : Prop where
  owned : Owned c
  placed : Placed Pool.IsRoute c
  tagged : Tagged c

theorem RouteInv.length_one (hi : RouteInv c) {e : TcamEntry .route} (he : e ∈ c.db .route) :
    (e.IsUnicast ∧ e.prefixLength = 1) ↔ e.pool = .ucRoutes 1 := by
  constructor
  · rintro ⟨⟨n,hn⟩,h1⟩
    rw [hi.tagged e he n hn] at h1
    rw [hn,h1]
  · intro h
    exact ⟨⟨1,h⟩,hi.tagged e he 1 h⟩

theorem RouteInv.inPool (hi : RouteInv c) {e : TcamEntry .route} (he : e ∈ c.db .route) :
    InPool e.pool e.index :=
  hi.placed.used .route e he (hi.owned.home .route e he)

theorem RouteInv.inPool_unicast (hi : RouteInv c) {e : TcamEntry .route} (he : e ∈ c.db .route)
    (hu : e.IsUnicast) : InPool (.ucRoutes e.prefixLength) e.index := by
  obtain ⟨n,hn⟩ := hu
  rw [hi.tagged e he n hn,← hn]
  exact hi.inPool he

theorem RouteInv.routesPlaced (hi : RouteInv c) : RoutesPlaced c where
  free _ hS _ hr := hi.placed.within hi.owned hS hr
  installed _ he hu := hi.inPool_unicast he hu
  intervals _ _ _ _ h := inPool_ucRoutes_lt h
  longer _ he _ he' hu hu' h :=
    inPool_ucRoutes_lt h (hi.inPool_unicast he' hu') (hi.inPool_unicast he hu)

theorem RouteInv.step (hi : RouteInv c) (h : Step sm c op c') (hc : ¬ op.DeletesLengthOne sm c) :
    RouteInv c' := by
  refine ⟨owned_step hi.owned h,hi.placed.step hi.owned h ?_,hi.tagged.step hi.owned h⟩
  intro d key e hq he hf hS
  rw [Pool.IsRoute,delPool_db] at hS
  subst d
  have hne : e.pool ≠ .ucRoutes 1 := by
    intro h1
    cases op <;> simp only [Op.query,Option.some.injEq,reduceCtorEq] at hq
    · cases hq
      obtain ⟨hu,hl⟩ := (hi.length_one he).mpr h1
      exact hc ⟨e,he,hf,hu,hl⟩
    · cases hq
    · cases hq
  have heq := delRoutePool_eq (hi.owned.home _ e he) hne (hi.inPool he)
  rw [show delPool .route e.index = e.pool from heq]
  exact hi.inPool he

/-- Deleting a unicast route of length 1 frees its index for length 0. -/
theorem RouteInv.delete_breaks (hi : RouteInv c) (h : Step sm c op c')
    (hd : op.DeletesLengthOne sm c) : ¬ RoutesPlaced c' := by
  intro hr
  obtain ⟨d,pool,key,mask,word,result,i,l,j,l',ht,_⟩ | ⟨d,key,e,he,m,hq,hf,rfl⟩ :=
    step_cases hi.owned h
  · cases op <;> simp [Op.takes,Op.DeletesLengthOne] at ht hd
  · cases op <;> simp only [Op.DeletesLengthOne] at hd
    cases hq
    obtain ⟨e',he',hf',hu,hl⟩ := hd
    -- the entry deleted is the one found, since no two results share an SRAM address
    have hee : e = e' := hi.owned.eq_of_index he he' (hi.owned.sramOne _ _ e he e' he'
      (congrArg sramAddr (Option.some.inj (hf.symm.trans hf')))).2
    subst e'
    have h1 := (hi.length_one he).mp ⟨hu,hl⟩
    have hin := hi.inPool he
    rw [h1] at hin
    obtain ⟨r,hr',hrl,hru⟩ :=
      covers_deleted hi.owned he (sramAddr2index (sramAddr e.result)) m
    obtain ⟨b,hb,hbl,hbu⟩ := hr.free _ (delPool_db .route e.index) r hr'
    have h0 : InPool (.ucRoutes 0) e.index := by
      rw [← delRoutePool_ucRoutes_one hin]
      exact ⟨b,hb,by omega,by omega⟩
    have : Pool.ucRoutes 0 = Pool.ucRoutes 1 := inPool_unique rfl h0 hin
    cases this

theorem RouteInv.start {srmap : List (ℕ × ℕ)} {nextId : ℕ} {sram : ℕ → SramWords}
    (sm : SearchMachine) (h : startRouter srmap nextId sram = some c) :
    RouteInv c ∧ c.db .route = [] := by
  refine startRouter_ind (P := fun c => RouteInv c ∧ c.db .route = []) ?_ ?_ h
  · exact ⟨⟨owned_startLists srmap nextId sram,placed_startLists _ srmap nextId sram,
      fun _ h => absurd h List.not_mem_nil⟩,rfl⟩
  · rintro c c' key mask priority result ⟨hi,hnil⟩ h
    have hstep : Step sm c (.addPfilter key mask priority result .done) c' := h
    refine ⟨hi.step hstep fun hc => hc,?_⟩
    obtain ⟨d,pool,_,_,_,_,_,_,_,_,ht,hd,_,_,_,_,rfl⟩ | ⟨d,key,e,_,m,hq,_,rfl⟩ :=
      step_cases hi.owned hstep
    · cases ht
      change Db.pfilter = d at hd
      subst hd
      simpa [Configuration.installed] using hnil
    · cases hq

/-- Without unicast routes of length 1 every length is recomputed. -/
theorem RouteInv.recomputes (hi : RouteInv c) (h1 : ∀ e ∈ c.db .route, e.pool ≠ .ucRoutes 1) :
    RecomputesLength c :=
  fun e he => delRoutePool_eq (hi.owned.home _ e he) (h1 e he) (hi.inPool he)

theorem takes_length_one {pool : Pool} (h : op.takes = some pool) :
    op.AddsLengthOne ↔ pool = .ucRoutes 1 := by
  cases op <;> simp only [Op.takes,Option.some.injEq,reduceCtorEq] at h <;> subst h <;>
    simp only [Op.AddsLengthOne,addRoutePool,reduceCtorEq]
  split
  · next h1 => simp [h1]
  · next h1 => simp [h1]

/-- A route a call leaves installed was there before or comes from the list the call took. -/
theorem mem_of_step (ho : Owned c) (h : Step sm c op c') {e : TcamEntry .route}
    (he : e ∈ c'.db .route) : e ∈ c.db .route ∨ op.takes = some e.pool := by
  obtain ⟨d,pool,key,mask,word,result,i,l,j,l',ht,_,_,_,_,_,rfl⟩ | ⟨d,key,e,_,m,_,_,rfl⟩ :=
    step_cases ho h
  · by_cases hd : d = .route
    · subst hd
      simp only [Configuration.installed,Function.update_self,List.mem_cons] at he
      rcases he with rfl | he
      · exact .inr ht
      · exact .inl he
    · simp only [Configuration.installed,Function.update_of_ne (Ne.symm hd)] at he
      exact .inl he
  · by_cases hd : d = .route
    · subst hd
      simp only [Configuration.deleted,Function.update_self,List.mem_filter] at he
      exact .inl he.1
    · simp only [Configuration.deleted,Function.update_of_ne (Ne.symm hd)] at he
      exact .inl he

/-- An added unicast route of length 1 is installed at an index that is recomputed to 0. -/
theorem RouteInv.add_breaks (hi : RouteInv c) (h : Step sm c op c') (ha : op.AddsLengthOne) :
    ¬ RecomputesLength c' := by
  intro hrec
  obtain ⟨d,pool,key,mask,word,result,i,l,j,l',ht,hd,_,_,hti,_,rfl⟩ | ⟨d,key,e,_,m,hq,_,rfl⟩ :=
    step_cases hi.owned h
  · have hp := (takes_length_one ht).mp ha
    subst hp
    change Db.route = d at hd
    subst hd
    obtain ⟨_,hin,_⟩ := getFreeIndex_spec (hi.owned.ordered _) hti
    have h1 := hrec ⟨.ucRoutes 1,i,key,mask,word (sramIndex2addr j)⟩
      (by simp [Configuration.installed])
    rw [delRoutePool_ucRoutes_one (hi.placed.free (.ucRoutes 1) rfl i hin)] at h1
    cases h1
  · cases op <;> simp [Op.query,Op.AddsLengthOne] at hq ha

/-- From `start_router` on, the routes stay in the intervals of their lengths exactly in the
runs that delete no unicast route of length 1, and `del_route` also recomputes every length
exactly in the runs that add none. -/
theorem routesPlaced_iff (sm : SearchMachine) (srmap : List (ℕ × ℕ)) (nextId : ℕ)
    (sram : ℕ → SramWords) (c : Configuration) (tr : List (Op × Configuration))
    (hs : startRouter srmap nextId sram = some c) (hr : IsRun (Step sm) c tr) :
    (EveryState (fun c => RoutesPlaced c ∧ RecomputesLength c) c tr ↔
      EveryStep (fun _ op _ => ¬ op.AddsLengthOne) c tr) ∧
    (EveryState RoutesPlaced c tr ↔
      EveryStep (fun c op _ => ¬ op.DeletesLengthOne sm c) c tr) := by
  obtain ⟨hi,hnil⟩ := RouteInv.start sm hs
  constructor
  · refine hr.everyState_iff
      (P := fun c => RouteInv c ∧ ∀ e ∈ c.db .route, e.pool ≠ .ucRoutes 1) ?_ ?_ ?_
      ⟨hi,by simp [hnil]⟩
    · rintro c op c' ⟨hi,h1⟩ h hc
      have hnd : ¬ op.DeletesLengthOne sm c := by
        intro hd
        cases op <;> simp only [Op.DeletesLengthOne] at hd
        obtain ⟨e,he,_,hu,hl⟩ := hd
        exact h1 e he ((hi.length_one he).mp ⟨hu,hl⟩)
      refine ⟨hi.step h hnd,fun e he => ?_⟩
      rcases mem_of_step hi.owned h he with he | ht
      · exact h1 e he
      · exact fun h => hc ((takes_length_one ht).mpr h)
    · rintro c op c' ⟨hi,_⟩ h ⟨_,hrec⟩ ha
      exact hi.add_breaks h ha hrec
    · rintro c ⟨hi,h1⟩
      exact ⟨hi.routesPlaced,hi.recomputes h1⟩
  · refine hr.everyState_iff (P := RouteInv) ?_ ?_ ?_ hi
    · exact fun _ _ _ hi h hc => hi.step h hc
    · exact fun _ _ _ hi h hr hd => hi.delete_breaks h hd hr
    · exact fun _ hi => hi.routesPlaced

/-- A key, or a mask, that only looks at the destination. -/
def unicastKey (daddr : ℕ) : RouteKey := ⟨daddr, 0, 0, 0⟩

/-- A run without length 1: a default route and a longer route stay in place. -/
theorem routesPlaced_two_adds : ∃ c tr, startRouter [] 0 blankSram = some c ∧
    IsRun (Step tcam) c tr ∧ tr.length = 3 ∧
    EveryState (fun c => RoutesPlaced c ∧ RecomputesLength c) c tr := by
  refine ⟨_,calls tcam _ [.addRoute (unicastKey 0) (unicastKey 0) noResult .done,
    .addRoute (unicastKey 0x0a000000) (unicastKey 0xff000000) noResult .done,
    .delRoute (unicastKey 0x0a000001) .done .done],rfl,isRun_calls rfl,rfl,?_⟩
  refine (routesPlaced_iff tcam [] 0 blankSram _ _ rfl (isRun_calls rfl)).1.mpr
    ⟨?_,?_,?_,trivial⟩
  · rintro ⟨_,h⟩
    revert h
    decide
  · rintro ⟨_,h⟩
    revert h
    decide
  · exact fun h => h

/-- A unicast route of length 1 is added and deleted; then the default route is put at the
index freed by it, below the next route of length 1. -/
theorem routesPlaced_broken : ∃ c tr, startRouter [] 0 blankSram = some c ∧
    IsRun (Step tcam) c tr ∧
    ¬ EveryState (fun c => RoutesPlaced c ∧ RecomputesLength c) c tr ∧
    ¬ EveryState RoutesPlaced c tr := by
  refine ⟨_,calls tcam _ [.addRoute (unicastKey 0x80000000) (unicastKey 0x80000000) noResult .done,
    .delRoute (unicastKey 0x80000001) .done .done,
    .addRoute (unicastKey 0) (unicastKey 0) noResult .done,
    .addRoute (unicastKey 0x80000000) (unicastKey 0x80000000) noResult .done],
    rfl,isRun_calls (by decide +kernel),?_⟩
  have hlong : ∀ c : Configuration, (c.db .route).map (fun e => (e.pool,e.prefixLength,e.index)) =
      [(.ucRoutes 1,1,16130),(.ucRoutes 0,0,16129)] → ¬ RoutesPlaced c := by
    intro c hdb h
    obtain ⟨e,l,hl,he,hdb⟩ := List.map_eq_cons_iff.mp hdb
    obtain ⟨e',l',hl',he',-⟩ := List.map_eq_cons_iff.mp hdb
    simp only [Prod.mk.injEq] at he he'
    have := h.longer e (by simp [hl]) e' (by simp [hl,hl']) ⟨1,he.1⟩ ⟨0,he'.1⟩ (by omega)
    omega
  constructor
  · rintro ⟨_,_,_,_,h,_⟩
    exact hlong _ (by decide +kernel) h
  · rintro ⟨_,_,_,_,h⟩
    exact hlong _ (by decide +kernel) h

end OnlDaemons.Npr
