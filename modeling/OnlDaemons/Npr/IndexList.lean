import OnlDaemons.Lib.RangeList
import Mathlib.Tactic.Common

/-!
# Free index lists of the NPR configuration

The daemon keeps every set of free TCAM and SRAM indices as a linked list of ranges
(`indexlist`), takes indices from the left of the first range and gives them back one by one.

## Main results

- `getFreeIndex_spec` — the index taken was free and is the only one that stops being free
- `addFreeIndex_spec` — giving back an index makes exactly that one free
-/

namespace OnlDaemons.Npr
open OnlDaemons.Lib OnlDaemons.Lib.RangeList

/-- `struct indexlist`: the chain of `next` pointers is the list. -/
abbrev IndexList := List Range

/-- `Configuration::get_free_index`; `none` is the exception "no more free TCAM entries". -/
def getFreeIndex : IndexList → Option (ℕ × IndexList)
  | [] => none
  | head :: next =>
    if head.left ≠ head.right then some (head.left, ⟨head.left + 1, head.right⟩ :: next)
    else some (head.left, next)

/-- The part of `add_free_index` after its loop has moved past `last`: the list from `last`
on, with `index` put back. -/
def addFreeIndexAfter (last : Range) (index : ℕ) : IndexList → IndexList
  | [] =>
    if last.right + 1 = index then [⟨last.left, index⟩] else [last, ⟨index, index⟩]
  | node :: next =>
    if node.right < index then last :: addFreeIndexAfter node index next
    else if last.right + 1 = index then
      if node.left = index + 1 then ⟨last.left, node.right⟩ :: next
      else ⟨last.left, index⟩ :: node :: next
    else if node.left = index + 1 then last :: ⟨index, node.right⟩ :: next
    else last :: ⟨index, index⟩ :: node :: next

/-- `Configuration::add_free_index`. -/
def addFreeIndex (index : ℕ) : IndexList → IndexList
  | [] => [⟨index, index⟩]
  | head :: next =>
    if head.right < index then addFreeIndexAfter head index next
    -- the loop stopped at once, so `last` and `node` are both the head and only the
    -- branches that look at `node->left` can apply
    else if head.left = index + 1 then ⟨index, head.right⟩ :: next
    else ⟨index, index⟩ :: head :: next

theorem getFreeIndex_spec {l l' : IndexList} {i : ℕ} (ho : Ordered l)
    (h : getFreeIndex l = some (i, l')) :
    Ordered l' ∧ Covers l i ∧ ∀ j, Covers l' j ↔ Covers l j ∧ j ≠ i := by
  cases l with
  | nil => simp [getFreeIndex] at h
  | cons head next =>
    have hne := ((ordered_cons head next).mp ho).1
    have habove := fun j (hj : Covers next j) => ho.above hj
    simp only [getFreeIndex] at h
    split at h
    · next hlr =>
      simp only [Option.some.injEq,Prod.mk.injEq] at h
      obtain ⟨rfl,rfl⟩ := h
      refine ⟨?_,?_,fun j => ?_⟩
      · rw [ordered_cons] at ho ⊢
        exact ⟨by simp only; omega,ho.2.1,ho.2.2⟩
      · exact (covers_cons _ _ _).mpr (.inl ⟨le_rfl,hne⟩)
      · simp only [covers_cons]
        constructor
        · rintro (h | h)
          · exact ⟨.inl (by omega),by omega⟩
          · exact ⟨.inr h,by have := habove j h; omega⟩
        · rintro ⟨h | h,hj⟩
          · exact .inl (by omega)
          · exact .inr h
    · next hlr =>
      simp only [Option.some.injEq,Prod.mk.injEq] at h
      obtain ⟨rfl,rfl⟩ := h
      refine ⟨ho.tail,(covers_cons _ _ _).mpr (.inl ⟨le_rfl,hne⟩),fun j => ?_⟩
      simp only [covers_cons]
      constructor
      · intro h
        exact ⟨.inr h,by have := habove j h; omega⟩
      · rintro ⟨h | h,hj⟩
        · omega
        · exact h

/-- Indices are only ever taken away by `get_free_index`, so its result stays in bounds. -/
theorem getFreeIndex_within {l l' : IndexList} {i lo hi : ℕ} (ho : Ordered l)
    (hw : Within l lo hi) (h : getFreeIndex l = some (i, l')) :
    Within l' lo hi ∧ lo ≤ i ∧ i ≤ hi := by
  obtain ⟨ho',hi',hc⟩ := getFreeIndex_spec ho h
  rw [within_iff ho] at hw
  exact ⟨(within_iff ho').mpr fun j hj => hw j ((hc j).mp hj).1,hw i hi'⟩

/-- The loop of `add_free_index` keeps the ranges ordered, leaves nothing before `last`, and
makes exactly the given index free. -/
theorem addFreeIndexAfter_spec {last : Range} {index : ℕ} {l : IndexList}
    (ho : Ordered (last :: l)) (hi : last.right < index) (hn : ¬ Covers l index) :
    Ordered (addFreeIndexAfter last index l) ∧
      (∀ r ∈ addFreeIndexAfter last index l, last.left ≤ r.left) ∧
      ∀ j, Covers (addFreeIndexAfter last index l) j ↔ j = index ∨ Covers (last :: l) j := by
  induction l generalizing last with
  | nil =>
    have hne := ((ordered_cons _ _).mp ho).1
    simp only [addFreeIndexAfter]
    split_ifs with hadj
    · refine ⟨ordered_singleton (by simp only; omega),by simp,fun j => ?_⟩
      simp only [covers_cons,covers_nil,or_false]
      omega
    · refine ⟨?_,?_,fun j => ?_⟩
      · simp only [ordered_cons,List.forall_mem_singleton,ordered_nil]
        exact ⟨hne,hi,le_rfl,by simp⟩
      · simp only [List.forall_mem_cons]
        exact ⟨le_rfl,by omega,by simp⟩
      · simp only [covers_cons,covers_nil,or_false]
        omega
  | cons node next ih =>
    obtain ⟨hne,hlt,hrest⟩ := (ordered_cons _ _).mp ho
    obtain ⟨hnode,hnext,htail⟩ := (ordered_cons _ _).mp hrest
    have hgap := hlt node List.mem_cons_self
    have hleft : ∀ r ∈ next, last.left ≤ r.left := fun r hr => by have := hnext r hr; omega
    have hlast : ∀ r ∈ next, last.right < r.left := fun r hr => by have := hnext r hr; omega
    simp only [covers_cons,not_or] at hn
    simp only [addFreeIndexAfter]
    split_ifs with hgo hadj hjoin hjoin
    · obtain ⟨ho',hl',hc'⟩ := ih hrest hgo hn.2
      refine ⟨(ordered_cons _ _).mpr ⟨hne,fun r hr => by have := hl' r hr; omega,ho'⟩,?_,fun j => ?_⟩
      · simp only [List.forall_mem_cons]
        exact ⟨le_rfl,fun r hr => by have := hl' r hr; omega⟩
      · rw [covers_cons,hc' j,covers_cons last]
        tauto
    · refine ⟨(ordered_cons _ _).mpr ⟨by simp only; omega,hnext,htail⟩,?_,fun j => ?_⟩
      · simp only [List.forall_mem_cons]
        exact ⟨le_rfl,hleft⟩
      · simp only [covers_cons,← or_assoc]
        exact or_congr_left (by omega)
    · refine ⟨?_,?_,fun j => ?_⟩
      · simp only [ordered_cons,List.forall_mem_cons]
        exact ⟨by omega,⟨by omega,fun r hr => by have := hnext r hr; omega⟩,hnode,hnext,htail⟩
      · simp only [List.forall_mem_cons]
        exact ⟨le_rfl,by omega,hleft⟩
      · simp only [covers_cons,← or_assoc]
        exact or_congr_left (by omega)
    · refine ⟨?_,?_,fun j => ?_⟩
      · simp only [ordered_cons,List.forall_mem_cons]
        exact ⟨hne,⟨hi,hlast⟩,by omega,hnext,htail⟩
      · simp only [List.forall_mem_cons]
        exact ⟨le_rfl,by omega,hleft⟩
      · simp only [covers_cons,← or_assoc]
        exact or_congr_left (by omega)
    · refine ⟨?_,?_,fun j => ?_⟩
      · simp only [ordered_cons,List.forall_mem_cons]
        exact ⟨hne,⟨hi,by omega,hlast⟩,le_rfl,
          ⟨by omega,fun r hr => by have := hnext r hr; omega⟩,hnode,hnext,htail⟩
      · simp only [List.forall_mem_cons]
        exact ⟨le_rfl,by omega,by omega,hleft⟩
      · simp only [covers_cons,← or_assoc]
        exact or_congr_left (by omega)

/-- Giving back an index that is not free makes exactly that index free. -/
theorem addFreeIndex_spec {index : ℕ} {l : IndexList} (ho : Ordered l)
    (hn : ¬ Covers l index) :
    Ordered (addFreeIndex index l) ∧
      ∀ j, Covers (addFreeIndex index l) j ↔ j = index ∨ Covers l j := by
  cases l with
  | nil =>
    refine ⟨ordered_singleton le_rfl,fun j => ?_⟩
    simp only [addFreeIndex,covers_cons,covers_nil,or_false]
    omega
  | cons head next =>
    obtain ⟨hne,hlt,htail⟩ := (ordered_cons _ _).mp ho
    simp only [covers_cons,not_or] at hn
    simp only [addFreeIndex]
    split_ifs with hgo hjoin
    · obtain ⟨ho',_,hc'⟩ := addFreeIndexAfter_spec ho hgo hn.2
      exact ⟨ho',hc'⟩
    · refine ⟨(ordered_cons _ _).mpr ⟨by simp only; omega,hlt,htail⟩,fun j => ?_⟩
      simp only [covers_cons,← or_assoc]
      exact or_congr_left (by omega)
    · refine ⟨?_,fun j => ?_⟩
      · simp only [ordered_cons,List.forall_mem_cons]
        exact ⟨le_rfl,⟨by omega,fun r hr => by have := hlt r hr; omega⟩,hne,hlt,htail⟩
      · simp only [covers_cons,← or_assoc]
        exact or_congr_left (by omega)

end OnlDaemons.Npr
