import OnlDaemons.Npr.ConcurrentCalls
import OnlDaemons.Lib.Registry

/-!
# The SRAM map

`srmap` gives every SRAM address that is in use by a route or a filter the id of the entry there. Ids
are never given twice, so that they tell an entry from later ones at the same address.

## Main definitions

- `getSramMap`
- `Mapped` — what is in use is in the map once, and what is free is not

## Main results

- `exec_step` — every call keeps `Owned` and `Mapped`, however it ends
-/

namespace OnlDaemons.Npr
open OnlDaemons.Lib OnlDaemons.Lib.RangeList

/-- `Configuration::get_sram_map`; `none` is the exception "no such addr in list!". -/
def getSramMap (addr : ℕ) (srmap : List (ℕ × ℕ)) : Option ℕ :=
  (srmap.find? fun node => node.1 = addr).map (·.2)

theorem getSramMap_iff {srmap : List (ℕ × ℕ)} (h : (srmap.map Prod.fst).Nodup) {addr id : ℕ} :
    getSramMap addr srmap = some id ↔ (addr, id) ∈ srmap := by
  unfold getSramMap
  constructor
  · intro hg
    obtain ⟨p,hp,rfl⟩ := Option.map_eq_some_iff.mp hg
    have hkey : p.1 = addr := by simpa using List.find?_some hp
    rw [← hkey]
    exact List.mem_of_find?_eq_some hp
  · intro hin
    have hfind : srmap.find? (fun node => node.1 = addr) = some (addr,id) :=
      firstOfKey_of_nodup h hin
    rw [hfind]
    rfl

theorem delSramMap_spec {addr : ℕ} {srmap : List (ℕ × ℕ)} (h : addr ∈ srmap.map Prod.fst) :
    ∃ m, delSramMap addr srmap = some m ∧ m.Sublist srmap ∧
      (∀ p ∈ srmap, p.1 ≠ addr → p ∈ m) ∧
      ((srmap.map Prod.fst).Nodup → addr ∉ m.map Prod.fst) := by
  induction srmap with
  | nil => exact absurd h List.not_mem_nil
  | cons p next ih =>
    unfold delSramMap
    by_cases hp : p.1 = addr
    · refine ⟨next,if_pos hp,List.sublist_cons_self p next,fun q hq hne => ?_,fun hn => ?_⟩
      · rcases List.mem_cons.mp hq with rfl | hq
        · exact absurd hp hne
        · exact hq
      · rw [List.map_cons,List.nodup_cons,hp] at hn
        exact hn.1
    · have hin : addr ∈ next.map Prod.fst :=
        (List.mem_cons.mp h).resolve_left fun he => hp he.symm
      obtain ⟨m,hm,hsub,hkeep,hgone⟩ := ih hin
      refine ⟨p :: m,by rw [if_neg hp,hm]; rfl,hsub.cons_cons p,fun q hq hne => ?_,fun hn => ?_⟩
      · rcases List.mem_cons.mp hq with rfl | hq
        · exact List.mem_cons_self
        · exact List.mem_cons_of_mem _ (hkeep q hq hne)
      · rw [List.map_cons,List.nodup_cons] at hn
        rw [List.map_cons,List.mem_cons,not_or]
        exact ⟨fun he => hp he.symm,hgone hn.2⟩

/-- Every SRAM address that is used by an entry is in the map once, and one that is free is not. -/
structure Mapped (c : Configuration) : Prop where
  nodup : (c.srmap.map Prod.fst).Nodup
  free : ∀ j, Covers c.sramFreeList j → sramIndex2addr j ∉ c.srmap.map Prod.fst
  used : ∀ d, ∀ e ∈ c.db d, sramAddr e.result ∈ c.srmap.map Prod.fst
  ids : ∀ p ∈ c.srmap, p.2 < c.nextId

/-- What a call may do to the map: ids only grow. -/
structure MapStep (c c' : Configuration) : Prop where
  nextId : c.nextId ≤ c'.nextId
  srmap : ∀ p ∈ c'.srmap, p ∈ c.srmap ∨ c.nextId ≤ p.2

variable {c c' : Configuration} {pool : Pool} {d : Db} {i j : ℕ}

theorem MapStep.refl (c : Configuration) : MapStep c c := ⟨Nat.le_refl _,fun _ => .inl⟩

theorem takeIndices_map (ho : Owned c) {r : Except String (ℕ × ℕ)} (h : takeIndices pool c = (r,c')) :
    (c'.srmap = c.srmap ∧ c'.nextId = c.nextId ∧ c'.sramFreeList = c.sramFreeList ∧
      ∃ text, r = .error text) ∨
    ∃ i j, r = .ok (i,j) ∧ c'.srmap = (sramIndex2addr j,c.nextId) :: c.srmap ∧
      c'.nextId = c.nextId + 1 ∧ Covers c.sramFreeList j ∧
      ∀ k, Covers c'.sramFreeList k ↔ Covers c.sramFreeList k ∧ k ≠ j := by
  unfold takeIndices at h
  split at h
  · cases h
    exact .inl ⟨rfl,rfl,rfl,_,rfl⟩
  · next i l hi =>
    simp only at h
    split at h
    · cases h
      exact .inl ⟨rfl,rfl,rfl,_,rfl⟩
    · next j l' hj =>
      cases h
      obtain ⟨-,hjl,hcl⟩ := getFreeIndex_spec ho.sramOrdered hj
      exact .inr ⟨i,j,rfl,rfl,rfl,hjl,hcl⟩

theorem Mapped.take (h : Mapped c) (ho : Owned c) {r : Except String (ℕ × ℕ)}
    (ht : takeIndices pool c = (r,c')) : Mapped c' ∧ MapStep c c' := by
  obtain ⟨-,hdb,-⟩ := takeIndices_spec ho r ht
  rcases takeIndices_map ho ht with ⟨hm,hid,hfree,-⟩ | ⟨i,j,-,hm,hid,hj,hcov⟩
  · exact ⟨⟨hm ▸ h.nodup,by rw [hm,hfree]; exact h.free,by rw [hm,hdb]; exact h.used,
      by rw [hm,hid]; exact h.ids⟩,hid ▸ Nat.le_refl _,fun p hp => .inl (hm ▸ hp)⟩
  · refine ⟨⟨?_,fun k hk => ?_,fun d e he => ?_,fun p hp => ?_⟩,?_,fun p hp => ?_⟩
    · rw [hm,List.map_cons,List.nodup_cons]
      exact ⟨h.free j hj,h.nodup⟩
    · obtain ⟨hk,hne⟩ := (hcov k).mp hk
      rw [hm,List.map_cons,List.mem_cons,not_or]
      exact ⟨fun he => hne (sramIndex2addr_injective he),h.free k hk⟩
    · rw [hm]
      exact List.mem_cons_of_mem _ (h.used d e (hdb ▸ he))
    · rw [hm] at hp
      rw [hid]
      rcases List.mem_cons.mp hp with rfl | hp
      · exact Nat.lt_succ_self _
      · exact Nat.lt_succ_of_lt (h.ids p hp)
    · omega
    · rw [hm] at hp
      rcases List.mem_cons.mp hp with rfl | hp
      · exact .inr (Nat.le_refl _)
      · exact .inl hp

theorem addEntry_step (ho : Owned c) (h : Mapped c) {a : AddReq} (hd : a.pool.db = a.d)
    (hk : KeepsAddr a.word) (x : Exchange) :
    Owned (addEntry a.d a.pool a.key a.mask a.word a.result x c).2 ∧
    Mapped (addEntry a.d a.pool a.key a.mask a.word a.result x c).2 ∧
    MapStep c (addEntry a.d a.pool a.key a.mask a.word a.result x c).2 := by
  rw [addEntry_eq_sections]
  cases ht : takeIndices a.pool c with
  | mk r c₁ =>
    obtain ⟨hm₁,hs₁⟩ := h.take ho ht
    obtain ⟨hsram,hdb,hord,hsord,hsub,hssub,-⟩ := takeIndices_spec ho r ht
    have ho₁ := ho.shrink hsram hdb hord hsord hsub hssub
    cases r with
    | error text => exact ⟨ho₁,hm₁,hs₁⟩
    | ok ij =>
      obtain ⟨i,j⟩ := ij
      have hr := ho.take hd ht
      have ho₂ := ho₁.writeResult hr a.result i
      have hm₂ : Mapped (writeResult a.result i j c₁) := ⟨hm₁.nodup,hm₁.free,hm₁.used,hm₁.ids⟩
      have hs₂ : MapStep c (writeResult a.result i j c₁) := ⟨hs₁.nextId,hs₁.srmap⟩
      cases x with
      | dead text => exact ⟨ho₂,hm₂,hs₂⟩
      | fault => exact ⟨ho₂,hm₂,hs₂⟩
      | done =>
        have hr₂ : Reserved (writeResult a.result i j c₁) a.d i j :=
          ⟨hr.free,hr.used,hr.range,hr.sramFree,hr.sramUsed⟩
        have hword : ((writeResult a.result i j c₁).sram (sramIndex2addr j)).index = i := by
          simp [writeResult]
        refine ⟨ho₂.insert hr₂ hd hk hword,⟨hm₂.nodup,hm₂.free,fun d e he => ?_,hm₂.ids⟩,
          hs₂.nextId,hs₂.srmap⟩
        rcases mem_installEntry he with ⟨rfl,rfl⟩ | he
        · rw [show sramAddr (a.entry i j).result = sramIndex2addr j from hk j hr.range.2]
          rcases takeIndices_map ho ht with ⟨-,-,-,text,hbad⟩ | ⟨i',j',hij,hmap,-⟩
          · cases hbad
          · cases hij
            show _ ∈ c₁.srmap.map Prod.fst
            rw [hmap]
            exact List.mem_cons_self
        · exact hm₂.used d e he

theorem Owned.withSrmap (ho : Owned c) (m : List (ℕ × ℕ)) : Owned { c with srmap := m } :=
  ⟨ho.home,ho.ordered,ho.sramOrdered,ho.sramWithin,ho.disjoint,ho.used,ho.nodup,ho.sramUsed,
    ho.sramIndex,ho.sramOne⟩

/-- What is given back leaves the map. -/
theorem Mapped.giveBack (h : Mapped c) (ho : Owned c) {e : TcamEntry d} (he : e ∈ c.db d) :
    Owned (giveBack (delPool d e.index) e.index (sramAddr e.result) (removeIndex d e.index c)).2 ∧
    Mapped (giveBack (delPool d e.index) e.index (sramAddr e.result) (removeIndex d e.index c)).2 ∧
    MapStep c
      (giveBack (delPool d e.index) e.index (sramAddr e.result) (removeIndex d e.index c)).2 := by
  obtain ⟨m,hm,hsub,hkeep,hgone⟩ := delSramMap_spec (h.used d e he)
  obtain ⟨j,-,hj,-⟩ := ho.sramUsed d e he
  have hr := ho.reserved_removed he
  have hor := ho.remove d e.index
  have hdel := hor.freeIndices hr (delPool_db d e.index)
  obtain ⟨-,-,-,hcov⟩ := covers_freeIndices hor hr (delPool_db d e.index)
  have heq : (Npr.giveBack (delPool d e.index) e.index (sramAddr e.result)
      (removeIndex d e.index c)).2 = { freeIndices (delPool d e.index) e.index
        (sramAddr2index (sramAddr e.result)) (removeIndex d e.index c) with srmap := m } := by
    have hmap : delSramMap (sramAddr e.result) (freeIndices (delPool d e.index) e.index
        (sramAddr2index (sramAddr e.result)) (removeIndex d e.index c)).srmap = some m := hm
    simp only [Npr.giveBack,hmap]
  rw [heq]
  have hkeys : ∀ a, a ≠ sramAddr e.result → a ∈ c.srmap.map Prod.fst → a ∈ m.map Prod.fst := by
    intro a hne ha
    obtain ⟨p,hp,rfl⟩ := List.mem_map.mp ha
    exact List.mem_map_of_mem (hkeep p hp hne)
  refine ⟨hdel.withSrmap m,⟨h.nodup.sublist (hsub.map _),fun k hk => ?_,fun d' e' he' => ?_,
    fun p hp => h.ids p (hsub.subset hp)⟩,Nat.le_refl _,fun p hp => .inl (hsub.subset hp)⟩
  · rcases (hcov k).mp hk with hkj | hk
    · rw [hkj,hj,sramAddr2index_sramIndex2addr,← hj]
      exact hgone h.nodup
    · exact fun hin => h.free k hk ((hsub.map _).subset hin)
  · obtain ⟨hin,hne⟩ := mem_removeIndex he'
    refine hkeys _ (fun ha => ?_) (h.used d' e' hin)
    obtain ⟨hdd,hi⟩ := ho.sramOne d' d e' hin e he ha
    exact hne hdd hi

theorem delEntry_step (ho : Owned c) (h : Mapped c) (sm : SearchMachine) (key : Key d)
    (query delete : Exchange) :
    Owned (delEntry sm d (delPool d) key query delete c).2 ∧
    Mapped (delEntry sm d (delPool d) key query delete c).2 ∧
    MapStep c (delEntry sm d (delPool d) key query delete c).2 := by
  have hstay : Owned c ∧ Mapped c ∧ MapStep c c := ⟨ho,h,MapStep.refl c⟩
  rw [delEntry_eq_sections]
  cases query with
  | dead text => exact hstay
  | fault => exact hstay
  | done =>
    simp only
    split
    · exact hstay
    · next word hw =>
      obtain ⟨e,he,rfl⟩ := sm.lookup_mem d (c.db d) key word hw
      cases delete with
      | dead text => exact hstay
      | fault => exact hstay
      | done =>
        simp only [ho.sramIndex d e he]
        exact h.giveBack ho he

/-- Every call keeps what is owned and what is mapped, however it ends. -/
theorem exec_step (ho : Owned c) (h : Mapped c) (sm : SearchMachine) (op : Op) :
    Owned (exec sm op c).2 ∧ Mapped (exec sm op c).2 ∧ MapStep c (exec sm op c).2 := by
  have hadd : ∀ a, op.adding = some a → ∀ x,
      Owned (addEntry a.d a.pool a.key a.mask a.word a.result x c).2 ∧
      Mapped (addEntry a.d a.pool a.key a.mask a.word a.result x c).2 ∧
      MapStep c (addEntry a.d a.pool a.key a.mask a.word a.result x c).2 := fun a ha x =>
    addEntry_step ho h (SharedConf.adding_spec ha).1 (SharedConf.adding_spec ha).2 x
  cases op with
  | addRoute key mask result x => exact hadd _ rfl x
  | addPfilter key mask priority result x =>
    simp only [exec,addPfilter]
    split
    · exact ⟨ho,h,MapStep.refl c⟩
    · next hp => exact hadd _ (if_neg hp) x
  | addAfilter key mask priority result x =>
    simp only [exec,addAfilter]
    split
    · exact ⟨ho,h,MapStep.refl c⟩
    · next hp => exact hadd _ (if_neg hp) x
  | delRoute key query delete => exact delEntry_step ho h sm (d := .route) key query delete
  | delPfilter key query delete => exact delEntry_step ho h sm (d := .pfilter) key query delete
  | delAfilter key query delete => exact delEntry_step ho h sm (d := .afilter) key query delete

theorem mapped_startLists (nextId : ℕ) (sram : ℕ → SramWords) :
    Mapped (startLists [] nextId sram) where
  nodup := List.nodup_nil
  free _ _ := List.not_mem_nil
  used _ _ h := absurd h List.not_mem_nil
  ids _ h := absurd h List.not_mem_nil

/-- The map is empty when the daemon starts its router for the first time. -/
theorem mapped_startRouter (sm : SearchMachine) {nextId : ℕ} {sram : ℕ → SramWords}
    (h : startRouter [] nextId sram = some c) : Owned c ∧ Mapped c := by
  refine startRouter_ind (P := fun c => Owned c ∧ Mapped c)
    ⟨owned_startLists [] nextId sram,mapped_startLists nextId sram⟩
    (fun c c' key mask priority result hc hadd => ?_) h
  obtain ⟨ho,hm,-⟩ := exec_step hc.1 hc.2 sm (.addPfilter key mask priority result .done)
  rw [show exec sm (.addPfilter key mask priority result .done) c = (.ok (),c') from hadd] at ho hm
  exact ⟨ho,hm⟩

end OnlDaemons.Npr
