import Mathlib.Data.List.Basic

/-!
# The words of a text

A text is cut at an element that separates words; two of them with nothing between them do not make a word.

## Main results

- `wordsAt_append_cons` — a separator cuts the text
- `wordsAt_spaced` — the words of words that are each put behind a separator
-/

namespace OnlDaemons.Lib

variable {α : Type*} [DecidableEq α] {sep : α}

def wordsAt (sep : α) (t : List α) : List (List α) := (t.splitOn sep).filter (· ≠ [])

/-- Each word behind a separator. -/
def spaced (sep : α) (ws : List (List α)) : List α := ws.flatMap (sep :: ·)

theorem wordsAt_append_cons (t u : List α) : wordsAt sep (t ++ sep :: u) = wordsAt sep t ++ wordsAt sep u := by
  rw [wordsAt, List.splitOn_append_cons_self, List.filter_append]
  rfl

theorem wordsAt_of_not_mem {w : List α} (h : sep ∉ w) : wordsAt sep w = [w].filter (· ≠ []) := by
  rw [wordsAt, List.splitOn_eq_singleton h]

theorem wordsAt_spaced {ws : List (List α)} (h : ∀ w ∈ ws, sep ∉ w) (t : List α) :
    wordsAt sep (t ++ spaced sep ws) = wordsAt sep t ++ ws.filter (· ≠ []) := by
  induction ws generalizing t with
  | nil => simp [spaced]
  | cons w ws ih =>
    have hcons : t ++ spaced sep (w :: ws) = t ++ sep :: (w ++ spaced sep ws) := by simp [spaced]
    rw [hcons, wordsAt_append_cons, ih (fun v hv => h v (List.mem_cons_of_mem _ hv)),
      wordsAt_of_not_mem (h w List.mem_cons_self), ← List.filter_append]
    rfl

/-- What is in a text is a separator or stands between two of them. -/
theorem mem_splitOn {t : List α} {c : α} (hc : c ∈ t) : c = sep ∨ ∃ w ∈ t.splitOn sep, c ∈ w := by
  induction t with
  | nil => cases hc
  | cons x t ih =>
    rw [List.splitOn_cons_eq_if_modifyHead]
    obtain ⟨w, ws, hsplit⟩ := List.exists_cons_of_ne_nil (List.splitOn_ne_nil sep t)
    by_cases hx : x = sep
    · rw [if_pos (beq_iff_eq.2 hx)]
      cases hc with
      | head => exact .inl hx
      | tail _ hct =>
        obtain h | ⟨v, hv, hcv⟩ := ih hct
        · exact .inl h
        · exact .inr ⟨v, List.mem_cons_of_mem _ hv, hcv⟩
    · rw [if_neg (fun h => hx (beq_iff_eq.1 h)), hsplit, List.modifyHead_cons]
      cases hc with
      | head => exact .inr ⟨c :: w, List.mem_cons_self, List.mem_cons_self⟩
      | tail _ hct =>
        rw [hsplit] at ih
        obtain h | ⟨v, hv, hcv⟩ := ih hct
        · exact .inl h
        · cases hv with
          | head => exact .inr ⟨x :: w, List.mem_cons_self, List.mem_cons_of_mem _ hcv⟩
          | tail _ hvs => exact .inr ⟨v, List.mem_cons_of_mem _ hvs, hcv⟩

omit [DecidableEq α] in
theorem spaced_append (ws vs : List (List α)) : spaced sep (ws ++ vs) = spaced sep ws ++ spaced sep vs :=
  List.flatMap_append

end OnlDaemons.Lib
