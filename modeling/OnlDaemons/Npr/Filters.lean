import OnlDaemons.Npr.Ownership

/-!
# Priority classes of the filter TCAMs

`start_router` gives every filter priority an interval of TCAM indices, and the TCAM answers
with the lowest matching index, so a filter must stay inside the interval of its priority.
`del_pfilter` and `del_afilter` count the classes from the other end of the TCAM and put the
index of a filter of priority `p` on the list of priority `63 - p`.

## Main results

- `FilterClasses` — indices lie in the intervals of their priorities
- `filterClasses_iff_no_delete` — it holds throughout a run exactly when no filter is deleted
-/

namespace OnlDaemons.Npr
open OnlDaemons.Lib OnlDaemons.Lib.RangeList

variable {sm : SearchMachine} {c c' : Configuration} {op : Op}

def Pool.priority : Pool → ℕ
  | .pfilters p => p
  | .afilters p => p
  | _ => 0

/-- The filter lists. -/
def Pool.IsFilter (pool : Pool) : Prop := pool.db ≠ .route

theorem isFilter_of_db {p : Pool} {d : Db} (h : p.db = d) (hd : d ≠ .route) : p.IsFilter := by
  rwa [Pool.IsFilter,h]

/-- Every free range and every installed filter lies in the interval of its priority, a
better priority lies at lower indices, and no index is on two lists. -/
structure FilterClasses (c : Configuration) : Prop where
  free : ∀ p : Pool, p.IsFilter → ∀ r ∈ c.free p,
    ∃ b, layout p = some b ∧ b.left ≤ r.left ∧ r.right ≤ b.right
  installed : ∀ d, d ≠ .route → ∀ e ∈ c.db d, e.pool.db = d ∧ InPool e.pool e.index
  better : ∀ d, d ≠ .route → ∀ e ∈ c.db d, ∀ e' ∈ c.db d,
    e.pool.priority < e'.pool.priority → e.index < e'.index
  one : ∀ p q : Pool, p.IsFilter → p.db = q.db → ∀ i,
    Covers (c.free p) i → Covers (c.free q) i → p = q

/-- Deletes of filters. -/
def Op.DeletesFilter : Op → Prop
  | .delPfilter _ _ _ => True
  | .delAfilter _ _ _ => True
  | _ => False

theorem inPool_priority_lt {p q : Pool} (hp : p.IsFilter) (hpq : p.db = q.db) {i j : ℕ}
    (hi : InPool p i) (hj : InPool q j) (h : p.priority < q.priority) : i < j := by
  rw [inPool_iff] at hi hj
  rcases p with _ | _ | n | n <;> rcases q with _ | _ | m | m <;>
    simp [Pool.db,Pool.IsFilter,Pool.priority] at * <;> omega

/-- `del_pfilter` and `del_afilter` recompute the mirrored priority. -/
theorem delPool_priority {d : Db} {p : Pool} {i : ℕ} (hd : d ≠ .route) (hp : p.db = d)
    (hi : InPool p i) : (delPool d i).priority = maxPriority - p.priority := by
  have h3 : pfilterNumPerClass = 511 := rfl
  have h4 : afilterNumPerClass = 255 := rfl
  rw [inPool_iff] at hi
  subst d
  rcases p with _ | _ | n | n
  · exact absurd rfl hd
  · exact absurd rfl hd
  · simp only [Pool.db,delPool,delPfilterPool,Pool.priority,maxPriority,pfilterFirstIndex,h3] at *
    omega
  · simp only [Pool.db,delPool,delAfilterPool,Pool.priority,maxPriority,afilterFirstIndex,h4] at *
    omega

theorem inPool_priority_le {p : Pool} {i : ℕ} (hi : InPool p i) : p.priority ≤ maxPriority := by
  rw [inPool_iff] at hi
  rcases p with _ | _ | n | n
  · exact Nat.zero_le _
  · exact Nat.zero_le _
  · exact hi.1
  · exact hi.1

/-- No priority is its own mirror image: 63 is odd. -/
theorem delPool_ne {d : Db} {p : Pool} {i : ℕ} (hd : d ≠ .route) (hp : p.db = d)
    (hi : InPool p i) : delPool d i ≠ p := by
  intro h
  have hm := delPool_priority hd hp hi
  have hle := inPool_priority_le hi
  rw [h] at hm
  simp only [maxPriority] at hm hle
  omega

theorem filterClasses_of_placed (ho : Owned c) (hp : Placed Pool.IsFilter c) :
    FilterClasses c where
  free p hS r hr := hp.within ho hS hr
  installed d hd e he := by
    have hh := ho.home d e he
    exact ⟨hh,hp.used d e he (isFilter_of_db hh hd)⟩
  better d hd e he e' he' h := by
    have hh := ho.home d e he
    have hh' := ho.home d e' he'
    exact inPool_priority_lt (isFilter_of_db hh hd) (hh.trans hh'.symm)
      (hp.used d e he (isFilter_of_db hh hd)) (hp.used d e' he' (isFilter_of_db hh' hd)) h
  one p q _ hpq i h1 h2 := ho.disjoint p q i hpq h1 h2

theorem query_isFilter {d : Db} {key : Key d} (h : op.query = some ⟨d,key⟩)
    (hd : d ≠ .route) : op.DeletesFilter := by
  cases op <;> simp only [Op.query,Option.some.injEq,reduceCtorEq] at h
  · cases h; exact absurd rfl hd
  · trivial
  · trivial

/-- A call that deletes no filter keeps the filters in place. -/
theorem placed_keep (h : Step sm c op c') (hc : ¬ op.DeletesFilter)
    (hp : Owned c ∧ Placed Pool.IsFilter c) : Owned c' ∧ Placed Pool.IsFilter c' := by
  refine ⟨owned_step hp.1 h,hp.2.step hp.1 h fun d key e hq _ _ hS => ?_⟩
  rw [Pool.IsFilter,delPool_db] at hS
  exact absurd (query_isFilter hq hS) hc

/-- A call that deletes a filter puts its index on the list of another priority. -/
theorem delete_breaks (h : Step sm c op c') (hd : op.DeletesFilter)
    (hp : Owned c ∧ Placed Pool.IsFilter c) : ¬ FilterClasses c' := by
  intro hf
  obtain ⟨d,pool,key,mask,word,result,i,l,j,l',ht,_⟩ | ⟨d,key,e,he,m,hq,_,rfl⟩ :=
    step_cases hp.1 h
  · cases op <;> simp [Op.takes,Op.DeletesFilter] at ht hd
  · have hdr : d ≠ .route := by
      rintro rfl
      cases op <;> simp [Op.query,Op.DeletesFilter] at hq hd
    have hh := hp.1.home d e he
    have hin := hp.2.used d e he (isFilter_of_db hh hdr)
    obtain ⟨r,hr,hl,hu⟩ :=
      covers_deleted hp.1 he (sramAddr2index (sramAddr e.result)) m
    obtain ⟨b,hb,hbl,hbu⟩ := hf.free _ (isFilter_of_db (delPool_db d e.index) hdr) r hr
    exact delPool_ne hdr hh hin (inPool_unique ((delPool_db d e.index).trans hh.symm)
      ⟨b,hb,by omega,by omega⟩ hin)

/-- From `start_router` on, the filters stay in the intervals of their priorities exactly in
the runs that delete no filter. -/
theorem filterClasses_iff_no_delete (sm : SearchMachine) (srmap : List (ℕ × ℕ)) (nextId : ℕ)
    (sram : ℕ → SramWords) (c : Configuration) (tr : List (Op × Configuration))
    (hs : startRouter srmap nextId sram = some c) (hr : IsRun (Step sm) c tr) :
    EveryState FilterClasses c tr ↔ EveryStep (fun _ op _ => ¬ op.DeletesFilter) c tr := by
  have hstart : Owned c ∧ Placed Pool.IsFilter c :=
    startRouter_ind (P := fun c => Owned c ∧ Placed Pool.IsFilter c)
      ⟨owned_startLists srmap nextId sram,placed_startLists _ srmap nextId sram⟩
      (fun c c' key mask priority result hp h => by
        have hstep : Step sm c (.addPfilter key mask priority result .done) c' := h
        exact placed_keep hstep (fun hc => hc) hp) hs
  refine hr.everyState_iff (P := fun c => Owned c ∧ Placed Pool.IsFilter c) ?_ ?_ ?_ hstart
  · exact fun _ _ _ hp h hc => placed_keep h hc hp
  · exact fun _ _ _ hp h hf hd => delete_breaks h hd hp hf
  · exact fun _ hp => filterClasses_of_placed hp.1 hp.2

def noFilter : FilterKey := ⟨0, 0, 0, 0, 0, 0, 0, 0, 0, 0⟩

def blankSram : ℕ → SramWords := fun _ => ⟨.inl noResult,0⟩

def tcpFilter : FilterKey := ⟨0, 0, 0, 0, 6, 0, 0, 0, 0, 0⟩

/-- Two filters of different priorities stay in their classes. -/
theorem filterClasses_two_adds : ∃ c tr, startRouter [] 0 blankSram = some c ∧
    IsRun (Step tcam) c tr ∧ tr.length = 2 ∧ EveryState FilterClasses c tr := by
  refine ⟨_,calls tcam _ [.addPfilter tcpFilter tcpFilter 0 defFilterResult .done,
    .addPfilter noFilter noFilter 63 defFilterResult .done],rfl,isRun_calls rfl,rfl,?_⟩
  exact (filterClasses_iff_no_delete tcam [] 0 blankSram _ _ rfl (isRun_calls rfl)).mpr
    ⟨fun h => h,fun h => h,trivial⟩

/-- After one pfilter of priority 0 was added and deleted, index 1 is on the list of priority
63. -/
theorem filterClasses_broken : ∃ c tr, startRouter [] 0 blankSram = some c ∧
    IsRun (Step tcam) c tr ∧ ¬ EveryState FilterClasses c tr := by
  refine ⟨_,calls tcam _ [.addPfilter tcpFilter tcpFilter 0 defFilterResult .done,
    .delPfilter tcpFilter .done .done],rfl,isRun_calls rfl,?_⟩
  rintro ⟨_,_,h⟩
  obtain ⟨b,hb,hl,_⟩ := h.free (.pfilters 63) (isFilter_of_db rfl (by decide)) ⟨1,1⟩ (by decide)
  cases hb
  revert hl
  decide

end OnlDaemons.Npr
