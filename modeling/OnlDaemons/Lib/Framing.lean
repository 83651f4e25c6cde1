import Mathlib.Data.List.Infix
import Mathlib.Tactic.Common

/-!
# Frames on a stream

A frame is a header of a fixed length and a body whose length the header gives. Frames that follow
each other without a gap are told apart by their headers alone.

## Main definitions

- `Framing` — the length of the header, and the length of the body
- `Framing.IsFrame` — one whole frame
- `Framing.Incomplete` — the beginning of a frame, which may be empty
- `Framing.Received` — what was taken from a stream and what is left on it

## Main results

- `Framing.prefix_of_append` — the whole frames that were taken from a stream are the first of those
  that were put on it
- `Framing.all_of_flatten` — all frames were taken when nothing is left
-/

namespace OnlDaemons.Lib

variable {α : Type*}

structure Framing (α : Type*) where
  headLen : ℕ
  bodyLen : List α → ℕ
  pos : 0 < headLen

namespace Framing

variable (F : Framing α) {f g a b got rest : List α} {fs gs : List (List α)}

/-- The length of a frame that begins with these elements. -/
def size (l : List α) : ℕ := F.headLen + F.bodyLen (l.take F.headLen)

def IsFrame (f : List α) : Prop := f.length = F.size f

def Incomplete (got : List α) : Prop := got.length < F.headLen ∨ got.length < F.size got

instance : Decidable (F.IsFrame f) := inferInstanceAs (Decidable (_ = _))

variable {F}

theorem IsFrame.headLen_le (h : F.IsFrame f) : F.headLen ≤ f.length := by
  rw [IsFrame, size] at h
  omega

theorem IsFrame.ne_nil (h : F.IsFrame f) : f ≠ [] := by
  rintro rfl
  have hle := h.headLen_le
  have hpos := F.pos
  rw [List.length_nil] at hle
  omega

theorem incomplete_nil : F.Incomplete [] := .inl F.pos

/-- What follows a whole header does not change the length. -/
theorem size_append (h : F.headLen ≤ f.length) (a : List α) : F.size (f ++ a) = F.size f := by
  rw [size, size, List.take_append_of_le_length h]

/-- A stream begins with one frame at most. -/
theorem IsFrame.eq_of_append (hf : F.IsFrame f) (hg : F.IsFrame g) (h : f ++ a = g ++ b) :
    f = g ∧ a = b := by
  have hlen : f.length = g.length := by
    rw [hf, hg, ← size_append hf.headLen_le a, h, size_append hg.headLen_le b]
  exact List.append_inj h hlen

/-- The beginning of a frame is not a frame with more after it. -/
theorem IsFrame.not_incomplete (hf : F.IsFrame f) (h : f ++ a = got) : ¬F.Incomplete got := by
  rintro (hlt | hlt)
  · have hle := hf.headLen_le
    rw [← h, List.length_append] at hlt
    omega
  · rw [← h, size_append hf.headLen_le, ← hf, List.length_append] at hlt
    omega

/-- The whole frames that were taken are the first of those that were put on the stream. -/
theorem prefix_of_append (rest : List α) (hfs : ∀ f ∈ fs, F.IsFrame f) (hgs : ∀ g ∈ gs, F.IsFrame g)
    (h : fs.flatten ++ rest = gs.flatten) : fs <+: gs := by
  induction fs generalizing gs with
  | nil => exact List.nil_prefix
  | cons f fs ih =>
    cases gs with
    | nil =>
      have hnil : f = [] := by
        rw [List.flatten_cons, List.append_assoc, List.flatten_nil] at h
        exact (List.append_eq_nil_iff.mp h).1
      exact absurd hnil (hfs f List.mem_cons_self).ne_nil
    | cons g gs =>
      rw [List.flatten_cons, List.flatten_cons, List.append_assoc] at h
      obtain ⟨rfl, h'⟩ := (hfs f List.mem_cons_self).eq_of_append (hgs g List.mem_cons_self) h
      have hih := ih (fun f' hf => hfs f' (List.mem_cons_of_mem _ hf))
        (fun g' hg => hgs g' (List.mem_cons_of_mem _ hg)) h'
      exact List.cons_prefix_cons.mpr ⟨rfl, hih⟩

/-- Frames and the beginning of one more are all there is only if there is no more. -/
theorem all_of_flatten (hfs : ∀ f ∈ fs, F.IsFrame f) (hgs : ∀ g ∈ gs, F.IsFrame g)
    (hgot : F.Incomplete got) (h : fs.flatten ++ got = gs.flatten) : fs = gs ∧ got = [] := by
  obtain ⟨hs, rfl⟩ := prefix_of_append _ hfs hgs h
  rw [List.flatten_append] at h
  have hgot' := List.append_cancel_left h
  cases hs with
  | nil => exact ⟨(List.append_nil fs).symm, hgot'⟩
  | cons g hs =>
    have hg : F.IsFrame g := hgs g (List.mem_append_right fs List.mem_cons_self)
    exact absurd hgot (hg.not_incomplete hgot'.symm)

/-! ### Taking frames from a stream -/

/-- The frames that were taken, the beginning `part` of the next one, and what is on the line are what
was put on it. -/
structure Received (F : Framing α) (sent taken : List (List α)) (part line : List α) : Prop where
  put_frames : ∀ f ∈ sent, F.IsFrame f
  taken_frames : ∀ f ∈ taken, F.IsFrame f
  all : taken.flatten ++ part ++ line = sent.flatten

variable {sent taken : List (List α)} {part part' line line' : List α}

theorem received_nil : F.Received [] [] [] [] := ⟨nofun, nofun, rfl⟩

theorem Received.isPrefix (h : F.Received sent taken part line) : taken <+: sent :=
  prefix_of_append (part ++ line) h.taken_frames h.put_frames (by rw [← List.append_assoc, h.all])

/-- All is taken when the line is empty. -/
theorem Received.eq_of_nil (h : F.Received sent taken part []) (hpart : F.Incomplete part) :
    taken = sent ∧ part = [] := by
  have hall := h.all
  rw [List.append_nil] at hall
  exact all_of_flatten h.taken_frames h.put_frames hpart hall

/-- Between two frames the line begins with one. -/
theorem Received.exists_head {a : α} (h : F.Received sent taken [] (a :: line)) :
    ∃ f ∈ sent, f.head? = some a := by
  obtain ⟨gs, hgs⟩ := h.isPrefix
  have hall := h.all
  rw [← hgs, List.flatten_append, List.append_nil] at hall
  have hline := List.append_cancel_left hall
  cases gs with
  | nil => cases hline
  | cons g gs =>
    have hg : g ∈ sent := hgs ▸ List.mem_append_right taken List.mem_cons_self
    have hne := (h.put_frames g hg).ne_nil
    refine ⟨g, hg, ?_⟩
    rw [List.flatten_cons] at hline
    have hhead := congrArg List.head? hline
    rw [List.head?_append_of_ne_nil _ hne] at hhead
    exact hhead.symm

theorem Received.put (h : F.Received sent taken part line) (hf : F.IsFrame f) :
    F.Received (sent ++ [f]) taken part (line ++ f) := by
  refine ⟨fun g hg => ?_, h.taken_frames, ?_⟩
  · obtain hg | hg := List.mem_append.mp hg
    · exact h.put_frames g hg
    · rw [List.mem_singleton.mp hg]
      exact hf
  · rw [← List.append_assoc, h.all, List.flatten_append, List.flatten_singleton]

theorem Received.take (h : F.Received sent taken part line) (hl : part' ++ line' = part ++ line) :
    F.Received sent taken part' line' := by
  refine ⟨h.put_frames, h.taken_frames, ?_⟩
  rw [List.append_assoc, hl, ← List.append_assoc, h.all]

theorem Received.deliver (h : F.Received sent taken part line) (hf : F.IsFrame f)
    (hl : f ++ line' = part ++ line) : F.Received sent (taken ++ [f]) [] line' := by
  refine ⟨h.put_frames, fun g hg => ?_, ?_⟩
  · obtain hg | hg := List.mem_append.mp hg
    · exact h.taken_frames g hg
    · rw [List.mem_singleton.mp hg]
      exact hf
  · rw [List.flatten_append, List.flatten_singleton, List.append_nil, List.append_assoc, hl,
      ← List.append_assoc, h.all]

end Framing

end OnlDaemons.Lib
