import Mathlib

/-!
# Lists of objects that are found by a key

A registry lists its objects, and an object is found, changed or removed by a search for the first
entry that has its key. That is the object itself if no entry before it has the key, as when all keys
differ.

## Main definitions

- `removeByKey key k l` — without the first entry of the key `k`
- `modifyByKey key k f l` — with the first entry of the key `k` changed by `f`

## Main results

- `removeByKey_eq_erase`, `removeByKey_of_nodup`
- `mem_modifyByKey`, `map_modifyByKey`, `modifyByKey_const`, `sum_modifyByKey`
-/

namespace OnlDaemons.Lib

variable {α κ : Type*} [DecidableEq κ] {key : α → κ} {l : List α} {a b : α}

def removeByKey (key : α → κ) (k : κ) (l : List α) : List α := l.eraseP fun a => key a = k

/-- No entry before the first `a` has its key. -/
def FirstOfKey (key : α → κ) (a : α) (l : List α) : Prop := l.find? (fun b => key b = key a) = some a

theorem firstOfKey_of_nodup (hl : (l.map key).Nodup) (ha : a ∈ l) : FirstOfKey key a l := by
  induction l with
  | nil => exact absurd ha List.not_mem_nil
  | cons b l ih =>
    unfold FirstOfKey
    rw [List.map_cons,List.nodup_cons] at hl
    by_cases hb : key b = key a
    · have hba : b = a := by
        rcases List.mem_cons.mp ha with h | h
        · exact h.symm
        · exact absurd (hb ▸ List.mem_map_of_mem h) hl.1
      rw [List.find?_cons_of_pos (by simpa using hb),hba]
    · have hne : a ≠ b := fun h => hb (h ▸ rfl)
      rw [List.find?_cons_of_neg (by simpa using hb)]
      exact ih hl.2 ((List.mem_cons.mp ha).resolve_left hne)

theorem removeByKey_eq_erase [DecidableEq α] (h : FirstOfKey key a l) :
    removeByKey key (key a) l = l.erase a := by
  unfold removeByKey
  induction l with
  | nil => rfl
  | cons b l ih =>
    unfold FirstOfKey at h
    by_cases hb : key b = key a
    · rw [List.find?_cons_of_pos (by simpa using hb)] at h
      cases h
      rw [List.eraseP_cons_of_pos (by simp),List.erase_cons_head]
    · have hne : b ≠ a := fun h => hb (h ▸ rfl)
      rw [List.find?_cons_of_neg (by simpa using hb)] at h
      rw [List.eraseP_cons_of_neg (by simpa using hb),List.erase_cons_tail (by simpa using hne)]
      exact congrArg _ (ih h)

theorem removeByKey_of_nodup [DecidableEq α] (hl : (l.map key).Nodup) (ha : a ∈ l) :
    removeByKey key (key a) l = l.erase a :=
  removeByKey_eq_erase (firstOfKey_of_nodup hl ha)

def modifyByKey (key : α → κ) (k : κ) (f : α → α) (l : List α) : List α :=
  l.lookmap fun a => if key a = k then some (f a) else none

variable {k : κ} {f : α → α}

theorem modifyByKey_cons : modifyByKey key k f (a :: l) =
    if key a = k then f a :: l else a :: modifyByKey key k f l := by
  unfold modifyByKey
  rw [List.lookmap_cons]
  split <;> split <;> simp_all

/-- With different keys, one entry has changed. -/
theorem mem_modifyByKey (hl : (l.map key).Nodup) (h : b ∈ modifyByKey key k f l) :
    (b ∈ l ∧ key b ≠ k) ∨ ∃ a ∈ l, key a = k ∧ b = f a := by
  induction l with
  | nil => cases h
  | cons a l ih =>
    rw [List.map_cons, List.nodup_cons] at hl
    rw [modifyByKey_cons] at h
    by_cases ha : key a = k
    · rw [if_pos ha] at h
      obtain rfl | hb := List.mem_cons.mp h
      · exact .inr ⟨a, List.mem_cons_self, ha, rfl⟩
      · refine .inl ⟨List.mem_cons_of_mem _ hb, fun hk => hl.1 ?_⟩
        rw [ha, ← hk]
        exact List.mem_map_of_mem hb
    · rw [if_neg ha] at h
      obtain rfl | hb := List.mem_cons.mp h
      · exact .inl ⟨List.mem_cons_self, ha⟩
      · obtain ⟨hb, hk⟩ | ⟨c, hc, hk, rfl⟩ := ih hl.2 hb
        · exact .inl ⟨List.mem_cons_of_mem _ hb, hk⟩
        · exact .inr ⟨c, List.mem_cons_of_mem _ hc, hk, rfl⟩

theorem map_modifyByKey (key : α → κ) {β : Type*} {g : α → β} (h : ∀ a, g (f a) = g a) :
    (modifyByKey key k f l).map g = l.map g := by
  refine List.lookmap_map_eq _ g (fun a b hb => ?_) l
  simp only [Option.mem_def,Option.ite_none_right_eq_some,Option.some.injEq] at hb
  rw [← hb.2,h a]

/-- Only the value at the entry matters. -/
theorem modifyByKey_const (h : l.find? (fun a => key a = k) = some a) :
    modifyByKey key k f l = modifyByKey key k (fun _ => f a) l := by
  induction l with
  | nil => cases h
  | cons c l ih =>
    rw [modifyByKey_cons,modifyByKey_cons]
    by_cases hc : key c = k
    · rw [List.find?_cons_of_pos (by simpa using hc)] at h
      cases h
      rw [if_pos hc,if_pos hc]
    · rw [List.find?_cons_of_neg (by simpa using hc)] at h
      rw [if_neg hc,if_neg hc,ih h]

theorem modifyByKey_self (h : l.find? (fun a => key a = k) = some a) :
    modifyByKey key k (fun _ => a) l = l := by
  refine (modifyByKey_const (f := id) h).symm.trans (List.lookmap_id' _ (fun a b hb => ?_) l)
  simp only [Option.mem_def,Option.ite_none_right_eq_some,Option.some.injEq] at hb
  exact hb.2

theorem find_modifyByKey_self (h : l.find? (fun a => key a = k) = some a) (hf : key (f a) = k) :
    (modifyByKey key k f l).find? (fun a => key a = k) = some (f a) := by
  induction l with
  | nil => cases h
  | cons c l ih =>
    rw [modifyByKey_cons]
    by_cases hc : key c = k
    · rw [List.find?_cons_of_pos (by simpa using hc)] at h
      cases h
      rw [if_pos hc,List.find?_cons_of_pos (by simpa using hf)]
    · rw [List.find?_cons_of_neg (by simpa using hc)] at h
      rw [if_neg hc,List.find?_cons_of_neg (by simpa using hc),ih h]

theorem find_modifyByKey_of_ne {k' : κ} (hk : k' ≠ k) (hf : ∀ a, key (f a) = k) :
    (modifyByKey key k f l).find? (fun a => key a = k') = l.find? fun a => key a = k' := by
  induction l with
  | nil => rfl
  | cons c l ih =>
    rw [modifyByKey_cons]
    by_cases hc : key c = k
    · have hc' : key c ≠ k' := fun h => hk (h.symm.trans hc)
      have hf' : key (f c) ≠ k' := fun h => hk (h.symm.trans (hf c))
      rw [if_pos hc,List.find?_cons_of_neg (by simpa using hf'),
        List.find?_cons_of_neg (by simpa using hc')]
    · rw [if_neg hc]
      by_cases hc' : key c = k'
      · rw [List.find?_cons_of_pos (by simpa using hc'),List.find?_cons_of_pos (by simpa using hc')]
      · rw [List.find?_cons_of_neg (by simpa using hc'),
          List.find?_cons_of_neg (by simpa using hc'),ih]

/-- What the entries add up to, when one is changed. -/
theorem sum_modifyByKey (w : α → ℕ) (h : l.find? (fun a => key a = k) = some a) :
    ((modifyByKey key k f l).map w).sum + w a = (l.map w).sum + w (f a) := by
  induction l with
  | nil => cases h
  | cons c l ih =>
    rw [modifyByKey_cons]
    by_cases hc : key c = k
    · rw [List.find?_cons_of_pos (by simpa using hc)] at h
      cases h
      simp only [if_pos hc,List.map_cons,List.sum_cons]
      omega
    · rw [List.find?_cons_of_neg (by simpa using hc)] at h
      simp only [if_neg hc,List.map_cons,List.sum_cons]
      have := ih h
      omega

end OnlDaemons.Lib
