import OnlDaemons.Npr.Ownership

/-!
# The locked sections of the NPR configuration

A call that adds or deletes an entry takes `conf_lock`, `sram_lock` and `tcam_lock` one after the
other, and does a part of its work under each. In between, an index may be neither free nor used.

## Main definitions

- `AddReq` — what a call adds
- `takeIndices`, `writeResult`, `installEntry` — the sections of the calls that add
- `removeIndex`, `giveBack` — the last two sections of those that delete
- `Reserved` — an index pair that is neither free nor used

## Main results

- `addEntry_eq_sections`, `delEntry_eq_sections` — a call that is alone
- `Owned.take`, `Owned.writeResult`, `Owned.insert`, `Owned.remove`, `Owned.giveBack` — ownership
  section by section
-/

namespace OnlDaemons.Npr
open OnlDaemons.Lib OnlDaemons.Lib.RangeList

structure AddReq where
  d : Db
  pool : Pool
  key : Key d
  mask : Key d
  word : ℕ → ℕ
  result : RouteResult ⊕ AfilterResult

/-- Under `conf_lock`. -/
def takeIndices (pool : Pool) (c : Configuration) : Except String (ℕ × ℕ) × Configuration :=
  match getFreeIndex (c.free pool) with
  | none => (.error "no more free TCAM entries", c)
  | some (tcamIndex, l) =>
    let c := c.setFree pool l
    match getFreeIndex c.sramFreeList with
    | none => (.error "no more free TCAM entries", c)
    | some (sramIndex, l) =>
      (.ok (tcamIndex, sramIndex), { c with
        sramFreeList := l
        srmap := (sramIndex2addr sramIndex, c.nextId) :: c.srmap
        nextId := c.nextId + 1 })

/-- Under `sram_lock`. -/
def writeResult (result : RouteResult ⊕ AfilterResult) (i j : ℕ) (c : Configuration) :
    Configuration :=
  { c with sram := Function.update c.sram (sramIndex2addr j) ⟨result, i⟩ }

def AddReq.entry (a : AddReq) (i j : ℕ) : TcamEntry a.d :=
  ⟨a.pool, i, a.key, a.mask, a.word (sramIndex2addr j)⟩

/-- What the TCAM daemon does under `tcam_lock`. -/
def installEntry (a : AddReq) (i j : ℕ) (c : Configuration) : Configuration :=
  c.setDb a.d (a.entry i j :: c.db a.d)

def removeIndex (d : Db) (i : ℕ) (c : Configuration) : Configuration :=
  c.setDb d ((c.db d).filter (fun e => e.index ≠ i))

/-- Under `conf_lock`, until the SRAM map. -/
def freeIndices (pool : Pool) (i j : ℕ) (c : Configuration) : Configuration :=
  { c with
    sramFreeList := addFreeIndex j c.sramFreeList
    free := Function.update c.free pool (addFreeIndex i (c.free pool)) }

def giveBack (pool : Pool) (i addr : ℕ) (c : Configuration) : Except String Unit × Configuration :=
  let c := freeIndices pool i (sramAddr2index addr) c
  match delSramMap addr c.srmap with
  | none => (.error "no such addr in list!", c)
  | some m => (.ok (), { c with srmap := m })

theorem addEntry_eq_sections (a : AddReq) (x : Exchange) (c : Configuration) :
    addEntry a.d a.pool a.key a.mask a.word a.result x c =
      match takeIndices a.pool c with
      | (.error text, c) => (.error text, c)
      | (.ok (i,j), c) =>
        match x with
        | .dead text => (.error text, writeResult a.result i j c)
        | .fault => (.error ("adding the " ++ a.d.what ++ " failed!"), writeResult a.result i j c)
        | .done => (.ok (), installEntry a i j (writeResult a.result i j c)) := by
  unfold addEntry takeIndices
  cases getFreeIndex (c.free a.pool) with
  | none => rfl
  | some tcam =>
    obtain ⟨i,l⟩ := tcam
    simp only
    cases getFreeIndex (c.setFree a.pool l).sramFreeList with
    | none => rfl
    | some sram => cases x <;> rfl

theorem delEntry_eq_sections (sm : SearchMachine) (d : Db) (poolOf : ℕ → Pool) (key : Key d)
    (query delete : Exchange) (c : Configuration) :
    delEntry sm d poolOf key query delete c =
      match query with
      | .dead text => (.error text, c)
      | .fault => (.error "response from tcamd too small", c)
      | .done =>
        match sm.lookupFltr d (c.db d) key with
        | none => (.error "response from tcamd too small", c)
        | some result =>
          let tcamIndex := (c.sram (sramAddr result)).index
          match delete with
          | .dead text => (.error text, c)
          | .fault => (.error ("deleting the " ++ d.what ++ " failed!"), c)
          | .done => giveBack (poolOf tcamIndex) tcamIndex (sramAddr result)
              (removeIndex d tcamIndex c) := by
  unfold delEntry
  cases query with
  | dead text => rfl
  | fault => rfl
  | done =>
    simp only
    cases sm.lookupFltr d (c.db d) key with
    | none => rfl
    | some result => cases delete <;> rfl

/-! ### Ownership -/

variable {d d' : Db} {pool : Pool} {c c' : Configuration} {i i' j j' : ℕ}

/-- The TCAM index of the database and the SRAM index are neither free nor used. -/
structure Reserved (c : Configuration) (d : Db) (i j : ℕ) : Prop where
  free : ∀ p : Pool, p.db = d → ¬Covers (c.free p) i
  used : ∀ e ∈ c.db d, e.index ≠ i
  range : 1 ≤ j ∧ j ≤ resultNumEntries - 2
  sramFree : ¬Covers c.sramFreeList j
  sramUsed : ∀ d', ∀ e ∈ c.db d', sramAddr e.result ≠ sramIndex2addr j

/-- What the free lists lose, nobody gets. -/
theorem Reserved.mono (h : Reserved c d i j) (hfree : ∀ p k, Covers (c'.free p) k → Covers (c.free p) k)
    (hsram : ∀ k, Covers c'.sramFreeList k → Covers c.sramFreeList k)
    (hdb : ∀ d, ∀ e ∈ c'.db d, e ∈ c.db d) : Reserved c' d i j where
  free p hp hc := h.free p hp (hfree p i hc)
  used e he := h.used e (hdb d e he)
  range := h.range
  sramFree hc := h.sramFree (hsram j hc)
  sramUsed d' e he := h.sramUsed d' e (hdb d' e he)

/-- What a call that takes indices has done to the lists, also if it throws. -/
theorem takeIndices_spec (ho : Owned c) (r : Except String (ℕ × ℕ))
    (h : takeIndices pool c = (r,c')) :
    c'.sram = c.sram ∧ c'.db = c.db ∧ (∀ p, Ordered (c'.free p)) ∧ Ordered c'.sramFreeList ∧
    (∀ p k, Covers (c'.free p) k → Covers (c.free p) k) ∧
    (∀ k, Covers c'.sramFreeList k → Covers c.sramFreeList k) ∧
    ∀ i j, r = .ok (i,j) → Covers (c.free pool) i ∧ ¬Covers (c'.free pool) i ∧
      Covers c.sramFreeList j ∧ ¬Covers c'.sramFreeList j := by
  unfold takeIndices at h
  split at h
  · cases h
    exact ⟨rfl,rfl,ho.ordered,ho.sramOrdered,fun _ _ => id,fun _ => id,fun _ _ h => by cases h⟩
  · next i l hi =>
    obtain ⟨hol,hil,hcl⟩ := getFreeIndex_spec (ho.ordered pool) hi
    have hord : ∀ p, Ordered ((c.setFree pool l).free p) := by
      intro p
      by_cases hp : p = pool
      · subst hp
        simpa [Configuration.setFree] using hol
      · simpa [Configuration.setFree,Function.update_of_ne hp] using ho.ordered p
    have hsub : ∀ p k, Covers ((c.setFree pool l).free p) k → Covers (c.free p) k := by
      intro p k hk
      by_cases hp : p = pool
      · subst hp
        simp only [Configuration.setFree,Function.update_self] at hk
        exact ((hcl k).mp hk).1
      · simpa [Configuration.setFree,Function.update_of_ne hp] using hk
    simp only at h
    split at h
    · cases h
      exact ⟨rfl,rfl,hord,ho.sramOrdered,hsub,fun _ => id,fun _ _ h => by cases h⟩
    · next j l' hj =>
      cases h
      obtain ⟨hol',hjl',hcl'⟩ := getFreeIndex_spec ho.sramOrdered hj
      refine ⟨rfl,rfl,hord,hol',hsub,fun k hk => ((hcl' k).mp hk).1,?_⟩
      intro i' j' he
      cases he
      refine ⟨hil,fun hk => ?_,hjl',fun hk => ((hcl' j).mp hk).2 rfl⟩
      simp only [Configuration.setFree,Function.update_self] at hk
      exact ((hcl i).mp hk).2 rfl

/-- The lists get shorter. -/
theorem Owned.shrink (ho : Owned c) (hsram : c'.sram = c.sram) (hdb : c'.db = c.db)
    (hord : ∀ p, Ordered (c'.free p)) (hsord : Ordered c'.sramFreeList)
    (hsub : ∀ p k, Covers (c'.free p) k → Covers (c.free p) k)
    (hssub : ∀ k, Covers c'.sramFreeList k → Covers c.sramFreeList k) : Owned c' where
  home := by rw [hdb]; exact ho.home
  ordered := hord
  sramOrdered := hsord
  sramWithin := (within_iff hsord).mpr fun k hk =>
    (within_iff ho.sramOrdered).mp ho.sramWithin k (hssub k hk)
  disjoint p q i hpq hp hq := ho.disjoint p q i hpq (hsub p i hp) (hsub q i hq)
  used d e he p hp hc := ho.used d e (by rwa [hdb] at he) p hp (hsub p _ hc)
  nodup := by rw [hdb]; exact ho.nodup
  sramUsed d e he := by
    rw [hdb] at he
    obtain ⟨j,hj,ha,hc⟩ := ho.sramUsed d e he
    exact ⟨j,hj,ha,fun h => hc (hssub j h)⟩
  sramIndex := by rw [hdb,hsram]; exact ho.sramIndex
  sramOne := by rw [hdb]; exact ho.sramOne

/-- The indices taken are reserved. -/
theorem Owned.take (ho : Owned c) (hd : pool.db = d) (h : takeIndices pool c = (.ok (i,j),c')) :
    Reserved c' d i j := by
  obtain ⟨-,hdb,-,-,hsub,-,hok⟩ := takeIndices_spec ho _ h
  obtain ⟨hi,hi',hj,hj'⟩ := hok i j rfl
  refine ⟨fun p hp hc => ?_,fun e he hei => ?_,?_,hj',fun d' e he ha => ?_⟩
  · have hpp := ho.disjoint p pool i (hp.trans hd.symm) (hsub p i hc) hi
    exact hi' (hpp ▸ hc)
  · rw [hdb] at he
    exact ho.used d e he pool hd (hei ▸ hi)
  · exact (within_iff ho.sramOrdered).mp ho.sramWithin j hj
  · rw [hdb] at he
    obtain ⟨k,-,hk,hc⟩ := ho.sramUsed d' e he
    exact hc (sramIndex2addr_injective (hk.symm.trans ha) ▸ hj)

theorem Owned.writeResult (ho : Owned c) (hr : Reserved c d i j)
    (result : RouteResult ⊕ AfilterResult) (k : ℕ) : Owned (writeResult result k j c) where
  home := ho.home
  ordered := ho.ordered
  sramOrdered := ho.sramOrdered
  sramWithin := ho.sramWithin
  disjoint := ho.disjoint
  used := ho.used
  nodup := ho.nodup
  sramUsed := ho.sramUsed
  sramIndex d' e he := by
    show (Function.update c.sram (sramIndex2addr j) _ (sramAddr e.result)).index = _
    rw [Function.update_of_ne (hr.sramUsed d' e he)]
    exact ho.sramIndex d' e he
  sramOne := ho.sramOne

theorem mem_installEntry {a : AddReq} {e : TcamEntry d} (he : e ∈ (installEntry a i j c).db d) :
    (∃ hd : d = a.d, e = hd ▸ a.entry i j) ∨ e ∈ c.db d := by
  by_cases hd : d = a.d
  · subst hd
    simp only [installEntry,Configuration.setDb,Function.update_self,List.mem_cons] at he
    exact he.imp (fun h => ⟨rfl,h⟩) id
  · simp only [installEntry,Configuration.setDb,Function.update_of_ne hd] at he
    exact .inr he

theorem Owned.insert {a : AddReq} (ho : Owned c) (hr : Reserved c a.d i j) (hd : a.pool.db = a.d)
    (hk : KeepsAddr a.word) (hw : (c.sram (sramIndex2addr j)).index = i) :
    Owned (installEntry a i j c) := by
  have haddr : sramAddr (a.entry i j).result = sramIndex2addr j := hk j hr.range.2
  constructor
  · intro d' e he
    rcases mem_installEntry he with ⟨rfl,rfl⟩ | he
    · exact hd
    · exact ho.home d' e he
  · exact ho.ordered
  · exact ho.sramOrdered
  · exact ho.sramWithin
  · exact ho.disjoint
  · intro d' e he p hp
    rcases mem_installEntry he with ⟨rfl,rfl⟩ | he
    · exact hr.free p hp
    · exact ho.used d' e he p hp
  · intro d'
    by_cases hdd : d' = a.d
    · subst hdd
      simp only [installEntry,Configuration.setDb,Function.update_self,List.map_cons,List.nodup_cons]
      refine ⟨fun hin => ?_,ho.nodup _⟩
      obtain ⟨e,he,hei⟩ := List.mem_map.mp hin
      exact hr.used e he hei
    · simpa [installEntry,Configuration.setDb,Function.update_of_ne hdd] using ho.nodup d'
  · intro d' e he
    rcases mem_installEntry he with ⟨rfl,rfl⟩ | he
    · exact ⟨j,hr.range,haddr,hr.sramFree⟩
    · exact ho.sramUsed d' e he
  · intro d' e he
    rcases mem_installEntry he with ⟨rfl,rfl⟩ | he
    · show (c.sram (sramAddr (a.entry i j).result)).index = i
      rw [haddr,hw]
    · exact ho.sramIndex d' e he
  · intro d₁ d₂ e₁ he₁ e₂ he₂ h
    rcases mem_installEntry he₁ with ⟨rfl,rfl⟩ | he₁ <;>
      rcases mem_installEntry he₂ with ⟨rfl,rfl⟩ | he₂
    · exact ⟨rfl,rfl⟩
    · exact absurd (h.symm.trans haddr) (hr.sramUsed d₂ e₂ he₂)
    · exact absurd (h.trans haddr) (hr.sramUsed d₁ e₁ he₁)
    · exact ho.sramOne d₁ d₂ e₁ he₁ e₂ he₂ h

/-- Others' indices stay reserved when an entry is installed. -/
theorem Reserved.insert {a : AddReq} (h : Reserved c d i j) (hr : Reserved c a.d i' j')
    (hk : KeepsAddr a.word) (hi : d = a.d → i ≠ i') (hj : j ≠ j') :
    Reserved (installEntry a i' j' c) d i j where
  free := h.free
  used e he := by
    rcases mem_installEntry he with ⟨rfl,rfl⟩ | he
    · exact (hi rfl).symm
    · exact h.used e he
  range := h.range
  sramFree := h.sramFree
  sramUsed d' e he := by
    rcases mem_installEntry he with ⟨rfl,rfl⟩ | he
    · intro ha
      have haddr : sramAddr (a.entry i' j').result = sramIndex2addr j' := hk j' hr.range.2
      exact hj (sramIndex2addr_injective (ha.symm.trans haddr))
    · exact h.sramUsed d' e he

theorem mem_removeIndex {e : TcamEntry d'} (he : e ∈ (removeIndex d i c).db d') :
    e ∈ c.db d' ∧ (d' = d → e.index ≠ i) := by
  by_cases hd : d' = d
  · subst hd
    simp only [removeIndex,Configuration.setDb,Function.update_self,List.mem_filter,
      decide_eq_true_eq] at he
    exact ⟨he.1,fun _ => he.2⟩
  · simp only [removeIndex,Configuration.setDb,Function.update_of_ne hd] at he
    exact ⟨he,fun h => absurd h hd⟩

theorem Owned.remove (ho : Owned c) (d : Db) (i : ℕ) : Owned (removeIndex d i c) where
  home d' e he := ho.home d' e (mem_removeIndex he).1
  ordered := ho.ordered
  sramOrdered := ho.sramOrdered
  sramWithin := ho.sramWithin
  disjoint := ho.disjoint
  used d' e he := ho.used d' e (mem_removeIndex he).1
  nodup d' := by
    by_cases hd : d' = d
    · subst hd
      simp only [removeIndex,Configuration.setDb,Function.update_self]
      exact (ho.nodup d').sublist (List.filter_sublist.map _)
    · simpa [removeIndex,Configuration.setDb,Function.update_of_ne hd] using ho.nodup d'
  sramUsed d' e he := ho.sramUsed d' e (mem_removeIndex he).1
  sramIndex d' e he := ho.sramIndex d' e (mem_removeIndex he).1
  sramOne d₁ d₂ e₁ he₁ e₂ he₂ h :=
    ho.sramOne d₁ d₂ e₁ (mem_removeIndex he₁).1 e₂ (mem_removeIndex he₂).1 h

/-- The indices of the entry that is removed are reserved. -/
theorem Owned.reserved_removed (ho : Owned c) {e : TcamEntry d} (he : e ∈ c.db d) :
    Reserved (removeIndex d e.index c) d e.index (sramAddr2index (sramAddr e.result)) := by
  obtain ⟨j,hj,hja,hjc⟩ := ho.sramUsed d e he
  rw [hja,sramAddr2index_sramIndex2addr]
  refine ⟨ho.used d e he,fun e' he' => (mem_removeIndex he').2 rfl,hj,hjc,fun d' e' he' ha => ?_⟩
  obtain ⟨hd,hi⟩ := ho.sramOne d' d e' (mem_removeIndex he').1 e he (ha.trans hja.symm)
  exact (mem_removeIndex he').2 hd hi

theorem covers_freeIndices (ho : Owned c) (hr : Reserved c d i j) (hd : pool.db = d) :
    (∀ p, Ordered ((freeIndices pool i j c).free p)) ∧
    Ordered (freeIndices pool i j c).sramFreeList ∧
    (∀ p k, Covers ((freeIndices pool i j c).free p) k ↔ p = pool ∧ k = i ∨ Covers (c.free p) k) ∧
    ∀ k, Covers (freeIndices pool i j c).sramFreeList k ↔ k = j ∨ Covers c.sramFreeList k := by
  obtain ⟨hos,hcs⟩ := addFreeIndex_spec ho.sramOrdered hr.sramFree
  obtain ⟨hop,hcp⟩ := addFreeIndex_spec (ho.ordered pool) (hr.free pool hd)
  refine ⟨fun p => ?_,hos,fun p k => ?_,hcs⟩
  · by_cases hp : p = pool
    · subst hp
      simpa [freeIndices] using hop
    · simpa [freeIndices,Function.update_of_ne hp] using ho.ordered p
  · by_cases hp : p = pool
    · subst hp
      simpa [freeIndices] using hcp k
    · simp [freeIndices,hp]

theorem Owned.freeIndices (ho : Owned c) (hr : Reserved c d i j) (hd : pool.db = d) :
    Owned (freeIndices pool i j c) := by
  obtain ⟨hord,hsord,hcov,hscov⟩ := covers_freeIndices ho hr hd
  refine ⟨ho.home,hord,hsord,(within_iff hsord).mpr fun k hk => ?_,?_,?_,ho.nodup,?_,ho.sramIndex,
    ho.sramOne⟩
  · rcases (hscov k).mp hk with rfl | hk
    · exact hr.range
    · exact (within_iff ho.sramOrdered).mp ho.sramWithin k hk
  · intro p q k hpq h1 h2
    rcases (hcov p k).mp h1 with ⟨hp,hk⟩ | h1 <;> rcases (hcov q k).mp h2 with ⟨hq,hk'⟩ | h2
    · exact hp.trans hq.symm
    · exact absurd (hk ▸ h2) (hr.free q (hpq.symm.trans (hp ▸ hd)))
    · exact absurd (hk' ▸ h1) (hr.free p (hpq.trans (hq ▸ hd)))
    · exact ho.disjoint p q k hpq h1 h2
  · intro d' e he p hp hc
    rcases (hcov p _).mp hc with ⟨rfl,hi⟩ | hc
    · have hdd : d' = d := hp.symm.trans hd
      subst hdd
      exact hr.used e he hi
    · exact ho.used d' e he p hp hc
  · intro d' e he
    obtain ⟨k,hk,hka,hkc⟩ := ho.sramUsed d' e he
    refine ⟨k,hk,hka,fun h => ?_⟩
    rcases (hscov k).mp h with rfl | h
    · exact hr.sramUsed d' e he hka
    · exact hkc h

theorem Reserved.freeIndices (h : Reserved c d i j) (ho : Owned c) (hr : Reserved c d' i' j')
    (hd : pool.db = d') (hi : d = d' → i ≠ i') (hj : j ≠ j') :
    Reserved (freeIndices pool i' j' c) d i j := by
  obtain ⟨-,-,hcov,hscov⟩ := covers_freeIndices ho hr hd
  refine ⟨fun p hp hc => ?_,h.used,h.range,fun hc => ?_,h.sramUsed⟩
  · rcases (hcov p i).mp hc with ⟨rfl,hii⟩ | hc
    · exact hi (hp.symm.trans hd) hii
    · exact h.free p hp hc
  · rcases (hscov j).mp hc with hjj | hc
    · exact hj hjj
    · exact h.sramFree hc

end OnlDaemons.Npr
