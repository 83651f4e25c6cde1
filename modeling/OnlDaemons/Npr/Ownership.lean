import OnlDaemons.Npr.Configuration
import OnlDaemons.Lib.Run
import Mathlib.Data.List.Nodup
import Mathlib.Tactic.Common

/-!
# Ownership of TCAM and SRAM indices

Whatever list an index goes back to, it is always in exactly one place: on one free list, or
used by one installed entry. This holds in every state reachable by calls that return
normally, without any condition on them.

## Main results

- `addEntry_ok`, `delEntry_ok` — what a call that returns normally has done
- `Owned` — the invariant, `owned_step` — every call keeps it
-/

namespace OnlDaemons.Npr
open OnlDaemons.Lib OnlDaemons.Lib.RangeList

variable {d : Db} {pool : Pool} {c c' : Configuration}

/-- The state after an entry was installed at TCAM index `i` and SRAM index `j`, with `l` and
`l'` left on the two free lists. -/
def Configuration.installed (c : Configuration) (d : Db) (pool : Pool) (key mask : Key d)
    (word : ℕ → ℕ) (result : RouteResult ⊕ AfilterResult) (i : ℕ) (l : IndexList) (j : ℕ)
    (l' : IndexList) : Configuration where
  sramFreeList := l'
  free := Function.update c.free pool l
  arps := c.arps
  srmap := (sramIndex2addr j, c.nextId) :: c.srmap
  nextId := c.nextId + 1
  sram := Function.update c.sram (sramIndex2addr j) ⟨result, i⟩
  db := Function.update c.db d (⟨pool, i, key, mask, word (sramIndex2addr j)⟩ :: c.db d)

/-- The state after the entry at TCAM index `i` and SRAM index `j` was deleted and its TCAM
index given to `pool`. -/
def Configuration.deleted (c : Configuration) (d : Db) (pool : Pool) (i j : ℕ)
    (srmap : List (ℕ × ℕ)) : Configuration where
  sramFreeList := addFreeIndex j c.sramFreeList
  free := Function.update c.free pool (addFreeIndex i (c.free pool))
  arps := c.arps
  srmap := srmap
  nextId := c.nextId
  sram := c.sram
  db := Function.update c.db d ((c.db d).filter (fun e => e.index ≠ i))

theorem addEntry_ok {key mask : Key d} {word : ℕ → ℕ} {result : RouteResult ⊕ AfilterResult}
    {x : Exchange} (h : addEntry d pool key mask word result x c = (.ok (), c')) :
    ∃ i l j l', getFreeIndex (c.free pool) = some (i, l) ∧
      getFreeIndex c.sramFreeList = some (j, l') ∧
      c' = c.installed d pool key mask word result i l j l' := by
  unfold addEntry at h
  split at h
  · simp at h
  · next i l hi =>
    simp only at h
    split at h
    · simp at h
    · next j l' hj =>
      cases x with
      | dead text => simp at h
      | fault => simp at h
      | done =>
        simp only [Prod.mk.injEq,true_and] at h
        exact ⟨i,l,j,l',hi,hj,h.symm⟩

theorem delEntry_ok {sm : SearchMachine} {poolOf : ℕ → Pool} {key : Key d}
    {query delete : Exchange} (h : delEntry sm d poolOf key query delete c = (.ok (), c')) :
    ∃ e ∈ c.db d, ∃ m, sm.lookupFltr d (c.db d) key = some e.result ∧
      c' = c.deleted d (poolOf (c.sram (sramAddr e.result)).index)
        (c.sram (sramAddr e.result)).index (sramAddr2index (sramAddr e.result)) m := by
  unfold delEntry at h
  cases query with
  | dead text => simp at h
  | fault => simp at h
  | done =>
    simp only at h
    split at h
    · simp at h
    · next word hw =>
      obtain ⟨e,he,rfl⟩ := sm.lookup_mem d (c.db d) key word hw
      cases delete with
      | dead text => simp at h
      | fault => simp at h
      | done =>
        simp only at h
        split at h
        · simp at h
        · next m hm =>
          simp only [Prod.mk.injEq,true_and] at h
          exact ⟨e,he,m,hw,h.symm⟩

/-- Every index is on one free list or used by one installed entry, and the SRAM result of an
installed entry holds its TCAM index. -/
structure Owned (c : Configuration) : Prop where
  home : ∀ d, ∀ e ∈ c.db d, e.pool.db = d
  ordered : ∀ p, Ordered (c.free p)
  sramOrdered : Ordered c.sramFreeList
  sramWithin : Within c.sramFreeList 1 (resultNumEntries - 2)
  disjoint : ∀ p q i, p.db = q.db → Covers (c.free p) i → Covers (c.free q) i → p = q
  used : ∀ d, ∀ e ∈ c.db d, ∀ p : Pool, p.db = d → ¬ Covers (c.free p) e.index
  nodup : ∀ d, ((c.db d).map (·.index)).Nodup
  sramUsed : ∀ d, ∀ e ∈ c.db d, ∃ j, (1 ≤ j ∧ j ≤ resultNumEntries - 2) ∧
    sramAddr e.result = sramIndex2addr j ∧ ¬ Covers c.sramFreeList j
  sramIndex : ∀ d, ∀ e ∈ c.db d, (c.sram (sramAddr e.result)).index = e.index
  sramOne : ∀ d d', ∀ e ∈ c.db d, ∀ e' ∈ c.db d',
    sramAddr e.result = sramAddr e'.result → d = d' ∧ e.index = e'.index

theorem sramAddr2index_sramIndex2addr (j : ℕ) : sramAddr2index (sramIndex2addr j) = j := by
  simp [sramAddr2index,sramIndex2addr,resultUnitSize]

theorem sramIndex2addr_injective {i j : ℕ} (h : sramIndex2addr i = sramIndex2addr j) :
    i = j := by
  rw [← sramAddr2index_sramIndex2addr i,h,sramAddr2index_sramIndex2addr]

/-- The TCAM result words keep the SRAM address they are made from. -/
def KeepsAddr (word : ℕ → ℕ) : Prop :=
  ∀ j, j ≤ resultNumEntries - 2 → sramAddr (word (sramIndex2addr j)) = sramIndex2addr j

theorem sramIndex2addr_lt {j : ℕ} (h : j ≤ resultNumEntries - 2) :
    sramIndex2addr j < 2 ^ 21 := by
  have hn : resultNumEntries = 131072 := rfl
  simp only [sramIndex2addr,resultUnitSize]
  omega

theorem sramAddr_eq_mod (word : ℕ) : sramAddr word = word % 2 ^ 21 :=
  Nat.and_two_pow_sub_one_eq_mod word 21

theorem keepsAddr_id : KeepsAddr id := by
  intro j hj
  rw [sramAddr_eq_mod,id,Nat.mod_eq_of_lt (sramIndex2addr_lt hj)]

/-- Flags above bit 21 do not disturb the address. -/
theorem sramAddr_or (high n : ℕ) (hn : 21 ≤ n) (addr : ℕ) :
    sramAddr (high <<< n ||| addr) = sramAddr addr := by
  have hz : high <<< n % 2 ^ 21 = 0 := by
    rw [Nat.shiftLeft_eq]
    exact Nat.mod_eq_zero_of_dvd (Dvd.dvd.mul_left (pow_dvd_pow 2 hn) high)
  rw [sramAddr_eq_mod,Nat.or_mod_two_pow,hz,Nat.zero_or,sramAddr_eq_mod]

theorem keepsAddr_pfilterWord (priority : ℕ) (result : RouteResult) :
    KeepsAddr (pfilterWord priority result) := by
  intro j hj
  have h := keepsAddr_id j hj
  simp only [id] at h
  simp only [pfilterWord]
  split
  · rw [sramAddr_or 1 28 (by omega),sramAddr_or priority 21 le_rfl,h]
  · rw [sramAddr_or priority 21 le_rfl,h]

theorem keepsAddr_afilterWord (result : AfilterResult) : KeepsAddr (afilterWord result) := by
  intro j hj
  have h := keepsAddr_id j hj
  simp only [id] at h
  simp only [afilterWord]
  split
  · rw [sramAddr_or 1 28 (by omega),h]
  · exact h

/-- Two installed entries of one database with the same TCAM index are the same entry. -/
theorem Owned.eq_of_index (ho : Owned c) {e e' : TcamEntry d} (he : e ∈ c.db d)
    (he' : e' ∈ c.db d) (h : e.index = e'.index) : e = e' :=
  List.inj_on_of_nodup_map (ho.nodup d) he he' h

/-- The entry a delete removes is the one its lookup found. -/
theorem Owned.mem_deleted (ho : Owned c) {e e' : TcamEntry d} (he : e ∈ c.db d) :
    e' ∈ (c.db d).filter (fun x => x.index ≠ e.index) ↔ e' ∈ c.db d ∧ e' ≠ e := by
  simp only [List.mem_filter,decide_eq_true_eq]
  exact and_congr_right fun he' => not_congr
    ⟨fun h => ho.eq_of_index he' he h,fun h => h ▸ rfl⟩

theorem Owned.install (ho : Owned c) (hd : pool.db = d) {key mask : Key d} {word : ℕ → ℕ}
    {result : RouteResult ⊕ AfilterResult} {i j : ℕ} {l l' : IndexList}
    (hi : getFreeIndex (c.free pool) = some (i, l))
    (hj : getFreeIndex c.sramFreeList = some (j, l')) (hk : KeepsAddr word) :
    Owned (c.installed d pool key mask word result i l j l') := by
  obtain ⟨hol,hil,hcl⟩ := getFreeIndex_spec (ho.ordered pool) hi
  obtain ⟨hol',hjl',hcl'⟩ := getFreeIndex_spec ho.sramOrdered hj
  obtain ⟨hwl',hj1,hj2⟩ := getFreeIndex_within ho.sramOrdered ho.sramWithin hj
  -- nothing becomes free, and the index taken is free nowhere afterwards
  have hsub : ∀ p k, Covers (Function.update c.free pool l p) k → Covers (c.free p) k := by
    intro p k h
    by_cases hp : p = pool
    · subst p
      rw [Function.update_self] at h
      exact ((hcl k).mp h).1
    · rwa [Function.update_of_ne hp] at h
  have hgone : ∀ p : Pool, p.db = d → ¬ Covers (Function.update c.free pool l p) i := by
    intro p hp h
    have hpp : p = pool := ho.disjoint p pool i (hp.trans hd.symm) (hsub p i h) hil
    subst p
    rw [Function.update_self] at h
    exact ((hcl i).mp h).2 rfl
  have haddr := hk j hj2
  -- an installed entry has another SRAM address and another TCAM index
  have hother : ∀ d', ∀ e ∈ c.db d', sramAddr e.result ≠ sramIndex2addr j := by
    intro d' e he h
    obtain ⟨k,_,hk,hc⟩ := ho.sramUsed d' e he
    have : k = j := sramIndex2addr_injective (hk.symm.trans h)
    exact hc (this ▸ hjl')
  have hmem : ∀ d', ∀ e ∈ (c.installed d pool key mask word result i l j l').db d',
      (∃ hdd : d' = d, e = hdd ▸ ⟨pool,i,key,mask,word (sramIndex2addr j)⟩) ∨ e ∈ c.db d' := by
    intro d' e he
    by_cases hdd : d' = d
    · subst d'
      simp only [Configuration.installed,Function.update_self,List.mem_cons] at he
      exact he.imp (fun h => ⟨rfl,h⟩) id
    · simp only [Configuration.installed,Function.update_of_ne hdd] at he
      exact .inr he
  constructor
  · intro d' e he
    rcases hmem d' e he with ⟨rfl,rfl⟩ | he
    · exact hd
    · exact ho.home d' e he
  · intro p
    by_cases hp : p = pool
    · subst p; simpa [Configuration.installed] using hol
    · simpa [Configuration.installed,Function.update_of_ne hp] using ho.ordered p
  · exact hol'
  · exact hwl'
  · intro p q k hpq h1 h2
    exact ho.disjoint p q k hpq (hsub p k h1) (hsub q k h2)
  · intro d' e he p hp hc
    rcases hmem d' e he with ⟨rfl,rfl⟩ | he
    · exact hgone p hp hc
    · exact ho.used d' e he p hp (hsub p _ hc)
  · intro d'
    by_cases hdd : d' = d
    · subst d'
      simp only [Configuration.installed,Function.update_self,List.map_cons,List.nodup_cons]
      refine ⟨?_,ho.nodup d⟩
      simp only [List.mem_map,not_exists,not_and]
      intro e he hei
      exact ho.used d e he pool hd (hei ▸ hil)
    · simpa [Configuration.installed,Function.update_of_ne hdd] using ho.nodup d'
  · intro d' e he
    rcases hmem d' e he with ⟨rfl,rfl⟩ | he
    · exact ⟨j,⟨hj1,hj2⟩,haddr,fun h => ((hcl' j).mp h).2 rfl⟩
    · obtain ⟨k,hk,hka,hkc⟩ := ho.sramUsed d' e he
      exact ⟨k,hk,hka,fun h => hkc ((hcl' k).mp h).1⟩
  · intro d' e he
    rcases hmem d' e he with ⟨rfl,rfl⟩ | he
    · simp [Configuration.installed,haddr]
    · simp only [Configuration.installed,Function.update_of_ne (hother d' e he)]
      exact ho.sramIndex d' e he
  · intro d₁ d₂ e₁ he₁ e₂ he₂ h
    rcases hmem d₁ e₁ he₁ with ⟨rfl,rfl⟩ | hold₁ <;>
      rcases hmem d₂ e₂ he₂ with ⟨rfl,rfl⟩ | hold₂
    · exact ⟨rfl,rfl⟩
    · exact absurd (h.symm.trans haddr) (hother d₂ e₂ hold₂)
    · exact absurd (h.trans haddr) (hother d₁ e₁ hold₁)
    · exact ho.sramOne d₁ d₂ e₁ hold₁ e₂ hold₂ h

theorem Owned.delete (ho : Owned c) {e : TcamEntry d} (he : e ∈ c.db d) (hd : pool.db = d)
    (m : List (ℕ × ℕ)) :
    Owned (c.deleted d pool e.index (sramAddr2index (sramAddr e.result)) m) := by
  obtain ⟨j,⟨hj1,hj2⟩,hja,hjc⟩ := ho.sramUsed d e he
  have hj : sramAddr2index (sramAddr e.result) = j := by
    rw [hja,sramAddr2index_sramIndex2addr]
  rw [hj]
  obtain ⟨hos,hcs⟩ := addFreeIndex_spec ho.sramOrdered hjc
  obtain ⟨hop,hcp⟩ := addFreeIndex_spec (ho.ordered pool) (ho.used d e he pool hd)
  have hfree : ∀ p k, Covers (Function.update c.free pool (addFreeIndex e.index (c.free pool)) p) k →
      (p = pool ∧ k = e.index) ∨ Covers (c.free p) k := by
    intro p k h
    by_cases hp : p = pool
    · subst p
      rw [Function.update_self] at h
      exact ((hcp k).mp h).imp (fun h => ⟨rfl,h⟩) id
    · rw [Function.update_of_ne hp] at h
      exact .inr h
  have hmem : ∀ d', ∀ e' ∈ (c.deleted d pool e.index j m).db d', e' ∈ c.db d' ∧
      (d' = d → e'.index ≠ e.index) := by
    intro d' e' he'
    by_cases hdd : d' = d
    · subst d'
      simp only [Configuration.deleted,Function.update_self,List.mem_filter,
        decide_eq_true_eq] at he'
      exact ⟨he'.1,fun _ => he'.2⟩
    · simp only [Configuration.deleted,Function.update_of_ne hdd] at he'
      exact ⟨he',fun h => absurd h hdd⟩
  constructor
  · exact fun d' e' he' => ho.home d' e' (hmem d' e' he').1
  · intro p
    by_cases hp : p = pool
    · subst p; simpa [Configuration.deleted] using hop
    · simpa [Configuration.deleted,Function.update_of_ne hp] using ho.ordered p
  · exact hos
  · refine (within_iff hos).mpr fun k hk => ?_
    rcases (hcs k).mp hk with rfl | hk
    · exact ⟨hj1,hj2⟩
    · exact (within_iff ho.sramOrdered).mp ho.sramWithin k hk
  · intro p q k hpq h1 h2
    rcases hfree p k h1 with ⟨hp,hk⟩ | h1 <;> rcases hfree q k h2 with ⟨hq,hk'⟩ | h2
    · exact hp.trans hq.symm
    · exact absurd (hk ▸ h2) (ho.used d e he q (hpq.symm.trans (hp ▸ hd)))
    · exact absurd (hk' ▸ h1) (ho.used d e he p (hpq.trans (hq ▸ hd)))
    · exact ho.disjoint p q k hpq h1 h2
  · intro d' e' he' p hp hc
    obtain ⟨he',hne⟩ := hmem d' e' he'
    rcases hfree p _ hc with ⟨hpp,hi⟩ | hc
    · exact hne (hp.symm.trans (hpp ▸ hd)) hi
    · exact ho.used d' e' he' p hp hc
  · intro d'
    by_cases hdd : d' = d
    · subst d'
      simp only [Configuration.deleted,Function.update_self]
      exact (ho.nodup d).sublist (List.filter_sublist.map _)
    · simpa [Configuration.deleted,Function.update_of_ne hdd] using ho.nodup d'
  · intro d' e' he'
    obtain ⟨he',hne⟩ := hmem d' e' he'
    obtain ⟨k,hk,hka,hkc⟩ := ho.sramUsed d' e' he'
    refine ⟨k,hk,hka,fun h => ?_⟩
    rcases (hcs k).mp h with hkj | h
    · obtain ⟨hdd,hi⟩ := ho.sramOne d' d e' he' e he (hka.trans (hkj ▸ hja.symm))
      exact hne hdd hi
    · exact hkc h
  · intro d' e' he'
    exact ho.sramIndex d' e' (hmem d' e' he').1
  · intro d₁ d₂ e₁ he₁ e₂ he₂ h
    exact ho.sramOne d₁ d₂ e₁ (hmem d₁ e₁ he₁).1 e₂ (hmem d₂ e₂ he₂).1 h

/-- The list an adding call takes its TCAM index from. -/
def Op.takes : Op → Option Pool
  | .addRoute _ mask result _ => some (addRoutePool mask result)
  | .addPfilter _ _ priority _ _ => some (.pfilters priority)
  | .addAfilter _ _ priority _ _ => some (.afilters priority)
  | _ => none

/-- The database and the key a deleting call looks up. -/
def Op.query : Op → Option ((d : Db) × Key d)
  | .delRoute key _ _ => some ⟨.route,key⟩
  | .delPfilter key _ _ => some ⟨.pfilter,key⟩
  | .delAfilter key _ _ => some ⟨.afilter,key⟩
  | _ => none

/-- The list a delete gives a TCAM index of the database to. -/
def delPool : Db → ℕ → Pool
  | .route => delRoutePool
  | .pfilter => delPfilterPool
  | .afilter => delAfilterPool

@[simp] theorem delPool_db (d : Db) (i : ℕ) : (delPool d i).db = d := by
  cases d with
  | route => simp only [delPool,delRoutePool]; split <;> rfl
  | pfilter => rfl
  | afilter => rfl

def Key.daddr : {d : Db} → Key d → ℕ
  | .route, key => RouteKey.daddr key
  | .pfilter, key => FilterKey.daddr key
  | .afilter, key => FilterKey.daddr key

theorem addRoutePool_ucRoutes {mask : RouteKey} {result : RouteResult} {n : ℕ}
    (h : addRoutePool mask result = .ucRoutes n) : getPrefixLength mask.daddr = n := by
  unfold addRoutePool at h
  split at h
  · cases h
  · exact Pool.ucRoutes.inj h

/-- Every call that returns normally either installs one entry or deletes one. -/
theorem step_cases {sm : SearchMachine} {op : Op} (ho : Owned c) (h : Step sm c op c') :
    (∃ d pool, ∃ key mask : Key d, ∃ word result i l j l', op.takes = some pool ∧ pool.db = d ∧
      (∀ n, pool = .ucRoutes n → getPrefixLength mask.daddr = n) ∧ KeepsAddr word ∧
      getFreeIndex (c.free pool) = some (i, l) ∧ getFreeIndex c.sramFreeList = some (j, l') ∧
      c' = c.installed d pool key mask word result i l j l') ∨
    (∃ d, ∃ key : Key d, ∃ e ∈ c.db d, ∃ m, op.query = some ⟨d,key⟩ ∧
      sm.lookupFltr d (c.db d) key = some e.result ∧
      c' = c.deleted d (delPool d e.index) e.index (sramAddr2index (sramAddr e.result)) m) := by
  have hdel : ∀ d key query delete, delEntry sm d (delPool d) key query delete c = (.ok (), c') →
      ∃ e ∈ c.db d, ∃ m, sm.lookupFltr d (c.db d) key = some e.result ∧
        c' = c.deleted d (delPool d e.index) e.index (sramAddr2index (sramAddr e.result)) m := by
    intro d key query delete h
    obtain ⟨e,he,m,hf,h⟩ := delEntry_ok h
    rw [ho.sramIndex d e he] at h
    exact ⟨e,he,m,hf,h⟩
  cases op with
  | addRoute key mask result x =>
    obtain ⟨i,l,j,l',hi,hj,h⟩ := addEntry_ok h
    have hd : (addRoutePool mask result).db = .route := by unfold addRoutePool; split <;> rfl
    exact .inl ⟨.route,addRoutePool mask result,key,mask,id,.inl result,i,l,j,l',rfl,hd,
      fun n hn => addRoutePool_ucRoutes hn,keepsAddr_id,hi,hj,h⟩
  | addPfilter key mask priority result x =>
    simp only [Step,exec,addPfilter] at h
    split at h
    · simp at h
    · obtain ⟨i,l,j,l',hi,hj,h⟩ := addEntry_ok h
      exact .inl ⟨.pfilter,.pfilters priority,key,mask,pfilterWord priority result,.inl result,
        i,l,j,l',rfl,rfl,by simp,keepsAddr_pfilterWord priority result,hi,hj,h⟩
  | addAfilter key mask priority result x =>
    simp only [Step,exec,addAfilter] at h
    split at h
    · simp at h
    · obtain ⟨i,l,j,l',hi,hj,h⟩ := addEntry_ok h
      exact .inl ⟨.afilter,.afilters priority,key,mask,afilterWord result,.inr result,
        i,l,j,l',rfl,rfl,by simp,keepsAddr_afilterWord result,hi,hj,h⟩
  | delRoute key query delete =>
    obtain ⟨e,he,m,hf,h⟩ := hdel .route key query delete h
    exact .inr ⟨_,key,e,he,m,rfl,hf,h⟩
  | delPfilter key query delete =>
    obtain ⟨e,he,m,hf,h⟩ := hdel .pfilter key query delete h
    exact .inr ⟨_,key,e,he,m,rfl,hf,h⟩
  | delAfilter key query delete =>
    obtain ⟨e,he,m,hf,h⟩ := hdel .afilter key query delete h
    exact .inr ⟨_,key,e,he,m,rfl,hf,h⟩

theorem owned_step {sm : SearchMachine} {op : Op} (ho : Owned c) (h : Step sm c op c') :
    Owned c' := by
  obtain ⟨d,pool,key,mask,word,result,i,l,j,l',_,hd,_,hk,hi,hj,rfl⟩ | ⟨d,key,e,he,m,_,_,rfl⟩ :=
    step_cases ho h
  · exact ho.install hd hi hj hk
  · exact ho.delete he (delPool_db d e.index) m

/-- The index lies in the interval `start_router` gave to the list. -/
def InPool (pool : Pool) (i : ℕ) : Prop := ∃ r ∈ layout pool, r.left ≤ i ∧ i ≤ r.right

/-- Where the intervals are, in numbers. -/
theorem inPool_iff (pool : Pool) (i : ℕ) : InPool pool i ↔
    match pool with
    | .mcRoutes 0 => i = 7936
    | .mcRoutes 1 => 7689 ≤ i ∧ i ≤ 7935
    | .mcRoutes n => n ≤ 32 ∧ 7937 ≤ i + 248 * n ∧ i + 248 * n ≤ 8184
    | .ucRoutes 0 => i = 16376
    | .ucRoutes 1 => 16129 ≤ i ∧ i ≤ 16375
    | .ucRoutes n => n ≤ 32 ∧ 16129 ≤ i + 248 * n ∧ i + 248 * n ≤ 16376
    | .pfilters p => p ≤ 63 ∧ 511 * p + 1 ≤ i ∧ i ≤ 511 * p + 511
    | .afilters p => p ≤ 63 ∧ 255 * p + 1 ≤ i ∧ i ≤ 255 * p + 255 := by
  have h1 : routeMcNumPerClass = 248 := rfl
  have h2 : routeUcNumPerClass = 248 := rfl
  have h3 : pfilterNumPerClass = 511 := rfl
  have h4 : afilterNumPerClass = 255 := rfl
  have h5 : routeUcFirstIndex = 8193 := rfl
  unfold InPool layout
  split <;> simp only [h1,h2,h3,h4,h5,routeMcFirstIndex,routeFirstIndex,pfilterFirstIndex,
    afilterFirstIndex,maxPrefixLen,maxPriority]
  all_goals try split
  all_goals simp
  all_goals omega

/-- The intervals of one database are disjoint. -/
theorem inPool_unique {p q : Pool} {i : ℕ} (hpq : p.db = q.db) (hp : InPool p i)
    (hq : InPool q i) : p = q := by
  rw [inPool_iff] at hp hq
  rcases p with (_|_|n) | (_|_|n) | n | n <;> rcases q with (_|_|m) | (_|_|m) | m | m <;>
    simp [Pool.db] at hpq hp hq ⊢ <;> omega

theorem layout_left_le {p : Pool} {r : Range} (h : layout p = some r) : r.left ≤ r.right := by
  have h1 : routeMcNumPerClass = 248 := rfl
  have h2 : routeUcNumPerClass = 248 := rfl
  have h3 : pfilterNumPerClass = 511 := rfl
  have h4 : afilterNumPerClass = 255 := rfl
  unfold layout at h
  split at h
  all_goals try split at h
  all_goals cases h
  all_goals simp only [h1,h2,h3,h4]
  all_goals omega

theorem layout_ordered (p : Pool) : Ordered (layout p).toList := by
  rcases h : layout p with _ | r
  · exact ordered_nil
  · exact ordered_singleton (layout_left_le h)

theorem covers_layout (p : Pool) (i : ℕ) : Covers (layout p).toList i ↔ InPool p i := by
  simp [Covers,InPool]

theorem owned_startLists (srmap : List (ℕ × ℕ)) (nextId : ℕ) (sram : ℕ → SramWords) :
    Owned (startLists srmap nextId sram) where
  home _ _ h := absurd h List.not_mem_nil
  ordered := layout_ordered
  sramOrdered := ordered_singleton (by decide)
  sramWithin := by simp [startLists]
  disjoint p q i hpq hp hq :=
    inPool_unique hpq ((covers_layout p i).mp hp) ((covers_layout q i).mp hq)
  used _ _ h := absurd h List.not_mem_nil
  nodup _ := List.nodup_nil
  sramUsed _ _ h := absurd h List.not_mem_nil
  sramIndex _ _ h := absurd h List.not_mem_nil
  sramOne _ _ _ h := absurd h List.not_mem_nil

/-- The state `start_router` leaves is reached from the empty lists by adding pfilters. -/
theorem startRouter_ind {P : Configuration → Prop} {srmap : List (ℕ × ℕ)} {nextId : ℕ}
    {sram : ℕ → SramWords} (hP : P (startLists srmap nextId sram))
    (hadd : ∀ c c' key mask priority result, P c →
      addPfilter key mask priority result .done c = (.ok (), c') → P c')
    (h : startRouter srmap nextId sram = some c) : P c := by
  have hdef : ∀ exceptions c c', P c → addDefFilter exceptions c = some c' → P c' := by
    intro exceptions c c' hc h
    unfold addDefFilter at h
    split at h
    · next c'' hadd' =>
      cases h
      exact hadd _ _ _ _ _ _ hc hadd'
    · cases h
  simp only [startRouter,Option.bind_eq_bind,Option.bind_eq_some_iff] at h
  obtain ⟨c₁,h₁,c₂,h₂,c₃,h₃,h₄⟩ := h
  exact hdef _ _ _ (hdef _ _ _ (hdef _ _ _ (hdef _ _ _ hP h₁) h₂) h₃) h₄

theorem owned_startRouter {srmap : List (ℕ × ℕ)} {nextId : ℕ} {sram : ℕ → SramWords}
    (sm : SearchMachine) (h : startRouter srmap nextId sram = some c) : Owned c :=
  startRouter_ind (owned_startLists srmap nextId sram)
    (fun c c' key mask priority result ho h => by
      have hstep : Step sm c (.addPfilter key mask priority result .done) c' := h
      exact owned_step ho hstep) h

/-- Free indices and installed entries of the lists in `S` lie in their lists' intervals. -/
structure Placed (S : Pool → Prop) (c : Configuration) : Prop where
  free : ∀ p, S p → ∀ i, Covers (c.free p) i → InPool p i
  used : ∀ d, ∀ e ∈ c.db d, S e.pool → InPool e.pool e.index

theorem placed_startLists (S : Pool → Prop) (srmap : List (ℕ × ℕ)) (nextId : ℕ)
    (sram : ℕ → SramWords) : Placed S (startLists srmap nextId sram) where
  free p _ i h := (covers_layout p i).mp h
  used _ _ h := absurd h List.not_mem_nil

/-- Adds keep indices in their intervals, and so does a delete that gives its index to a list
whose interval holds it. -/
theorem Placed.step {S : Pool → Prop} {sm : SearchMachine} {op : Op} (ho : Owned c)
    (hp : Placed S c) (h : Step sm c op c')
    (hdel : ∀ d key e, op.query = some ⟨d,key⟩ → e ∈ c.db d →
      sm.lookupFltr d (c.db d) key = some e.result → S (delPool d e.index) →
      InPool (delPool d e.index) e.index) : Placed S c' := by
  obtain ⟨d,pool,key,mask,word,result,i,l,j,l',_,hd,_,hk,hi,hj,rfl⟩ | ⟨d,key,e,he,m,hq,hf,rfl⟩ :=
    step_cases ho h
  · obtain ⟨_,hil,hcl⟩ := getFreeIndex_spec (ho.ordered pool) hi
    constructor
    · intro p hS k hk
      by_cases hpp : p = pool
      · subst p
        simp only [Configuration.installed,Function.update_self] at hk
        exact hp.free pool hS k ((hcl k).mp hk).1
      · simp only [Configuration.installed,Function.update_of_ne hpp] at hk
        exact hp.free p hS k hk
    · intro d' e he hS
      by_cases hdd : d' = d
      · subst d'
        simp only [Configuration.installed,Function.update_self,List.mem_cons] at he
        rcases he with rfl | he
        · exact hp.free pool hS i hil
        · exact hp.used d e he hS
      · simp only [Configuration.installed,Function.update_of_ne hdd] at he
        exact hp.used d' e he hS
  · obtain ⟨_,hcp⟩ := addFreeIndex_spec (ho.ordered (delPool d e.index))
      (ho.used d e he _ (delPool_db d e.index))
    constructor
    · intro p hS k hk
      by_cases hpp : p = delPool d e.index
      · subst p
        simp only [Configuration.deleted,Function.update_self] at hk
        rcases (hcp k).mp hk with rfl | hk
        · exact hdel d key e hq he hf hS
        · exact hp.free _ hS k hk
      · simp only [Configuration.deleted,Function.update_of_ne hpp] at hk
        exact hp.free p hS k hk
    · intro d' e' he' hS
      by_cases hdd : d' = d
      · subst d'
        simp only [Configuration.deleted,Function.update_self,List.mem_filter] at he'
        exact hp.used d e' he'.1 hS
      · simp only [Configuration.deleted,Function.update_of_ne hdd] at he'
        exact hp.used d' e' he' hS

/-- A delete puts the index it found on the list it computes for it. -/
theorem covers_deleted (ho : Owned c) {e : TcamEntry d} (he : e ∈ c.db d) (j : ℕ)
    (m : List (ℕ × ℕ)) :
    Covers ((c.deleted d (delPool d e.index) e.index j m).free (delPool d e.index)) e.index := by
  obtain ⟨_,hcp⟩ := addFreeIndex_spec (ho.ordered (delPool d e.index))
    (ho.used d e he _ (delPool_db d e.index))
  simp only [Configuration.deleted,Function.update_self]
  exact (hcp e.index).mpr (.inl rfl)

/-- For the lists in `S` the ranges themselves lie in the intervals. -/
theorem Placed.within {S : Pool → Prop} (ho : Owned c) (hp : Placed S c) {p : Pool} (hS : S p)
    {r : Range} (hr : r ∈ c.free p) :
    ∃ b, layout p = some b ∧ b.left ≤ r.left ∧ r.right ≤ b.right := by
  have hne := (ho.ordered p).1 r hr
  obtain ⟨b,hb,hl,_⟩ := hp.free p hS r.left ⟨r,hr,le_rfl,hne⟩
  obtain ⟨b',hb',_,hu⟩ := hp.free p hS r.right ⟨r,hr,hne,le_rfl⟩
  cases hb.symm.trans hb'
  exact ⟨b,hb,hl,hu⟩

end OnlDaemons.Npr
