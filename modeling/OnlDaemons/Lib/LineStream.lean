import Mathlib.Data.List.TakeWhile
import Mathlib.Tactic.Common

/-!
# Reading a text file line by line

A stream over a file with its two flags, and the loop that takes lines from it into a buffer until the end of the file
has been met. A line that does not fit into the buffer sets the flag for failures, and nothing is read after that.

## Main definitions

- `LineStream` — what has been read, what is left and the flags
- `getline` — the next line, of fewer than `size` characters
- `readLines` — the lines up to the end of the file
- `completedLines` — the lines of a text that are followed by the end of a line

## Main results

- `readLines_ofLines` — short lines are all read
- `readLines_eq_none` — with enough fuel the loop only fails if it does not end
-/

namespace OnlDaemons.Lib

structure LineStream where
  before : List Char := []
  rest : List Char
  eof : Bool := false
  fail : Bool := false
deriving DecidableEq, Repr

namespace LineStream

/-- The whole file. -/
def file (s : LineStream) : List Char := s.before ++ s.rest

def good (s : LineStream) : Bool := !s.eof && !s.fail

/-- `clear()` -/
def clear (s : LineStream) : LineStream := { s with eof := false, fail := false }

/-- `seekg(0,ios::beg)`, which also takes the end of the file back. -/
def rewind (s : LineStream) : LineStream :=
  if s.fail then { s with eof := false } else { rest := s.file }

/-- The program that writes the file. -/
def append (s : LineStream) (piece : List Char) : LineStream := { s with rest := s.rest ++ piece }

/-- The characters that `getline` takes. -/
def taken (size : ℕ) (rest : List Char) : List Char := (rest.takeWhile (· ≠ '\n')).take (size - 1)

/-- `getline(buf,size)`: the stream after it, and the characters in the buffer. -/
def getline (size : ℕ) (s : LineStream) : LineStream × List Char :=
  if s.good then
    let line := taken size s.rest
    match s.rest.drop line.length with
    | [] => ({ before := s.before ++ line, rest := [], eof := true, fail := line = [] },line)
    | c :: rest =>
      if c = '\n' then ({ s with before := s.before ++ line ++ [c], rest := rest },line)
      else ({ s with before := s.before ++ line, rest := c :: rest, fail := true },line)
  else ({ s with fail := true },[])

/-- The loop `while(!eof())` around `getline`. There is no result if it takes more than `fuel` rounds. -/
def readLines (size : ℕ) : ℕ → LineStream → Option (LineStream × List (List Char))
  | 0, _ => none
  | fuel + 1, s =>
    if s.eof then some (s,[])
    else
      let (next,line) := s.getline size
      (readLines size fuel next).map fun (last,lines) => (last,line :: lines)

end LineStream

/-- The lines that are ended in a text, from the characters `line` of the first one on. -/
def linesFrom (line : List Char) : List Char → List (List Char)
  | [] => []
  | c :: text => if c = '\n' then line :: linesFrom [] text else linesFrom (line ++ [c]) text

def completedLines (text : List Char) : List (List Char) := linesFrom [] text

/-- No line is begun and not ended. -/
def Whole (text : List Char) : Prop := ∀ c ∈ text.getLast?, c = '\n'

instance (text : List Char) : Decidable (Whole text) := Option.decidableForallMem _

/-- The text of ended lines. -/
def ofLines (lines : List (List Char)) : List Char := lines.flatMap (· ++ ['\n'])

variable {size fuel : ℕ} {s : LineStream} {line text : List Char} {lines : List (List Char)}

theorem linesFrom_append (start : List Char) (hl : '\n' ∉ line) (more : List Char) :
    linesFrom start (line ++ '\n' :: more) = (start ++ line) :: linesFrom [] more := by
  induction line generalizing start with
  | nil => simp [linesFrom]
  | cons c line ih =>
    obtain ⟨hc,hline⟩ := not_or.mp (List.mem_cons.not.mp hl)
    rw [List.cons_append,linesFrom,if_neg (Ne.symm hc),ih (start ++ [c]) hline]
    simp

theorem completedLines_ofLines_append (hl : ∀ l ∈ lines, '\n' ∉ l) (more : List Char) :
    completedLines (ofLines lines ++ more) = lines ++ completedLines more := by
  unfold completedLines ofLines
  induction lines with
  | nil => rfl
  | cons l lines ih =>
    rw [List.flatMap_cons,List.append_assoc,List.append_assoc,List.singleton_append,
      linesFrom_append [] (hl l List.mem_cons_self),ih fun l' h => hl l' (List.mem_cons_of_mem l h)]
    rfl

theorem length_le_length_ofLines (lines : List (List Char)) : lines.length ≤ (ofLines lines).length := by
  induction lines with
  | nil => rfl
  | cons l lines ih =>
    simp only [ofLines,List.flatMap_cons,List.length_append,List.length_cons] at ih ⊢
    omega

theorem completedLines_ofLines (hl : ∀ l ∈ lines, '\n' ∉ l) : completedLines (ofLines lines) = lines := by
  have := completedLines_ofLines_append hl []
  rwa [List.append_nil,show completedLines [] = [] from rfl,List.append_nil] at this

/-- A text without a line that is begun and not ended. -/
theorem Whole.exists_lines (h : Whole text) : ∃ lines, (∀ l ∈ lines, '\n' ∉ l) ∧ text = ofLines lines := by
  induction hn : text.length using Nat.strongRecOn generalizing text with
  | ind n ih =>
    subst hn
    obtain rfl | hne := eq_or_ne text []
    · exact ⟨[],nofun,rfl⟩
    · have hlast : text.getLast hne = '\n' := h _ (List.getLast?_eq_some_getLast hne)
      obtain ⟨line,rest,rfl,hline⟩ := List.eq_append_cons_of_mem (hlast ▸ List.getLast_mem hne)
      have hrest : Whole rest := by
        intro c hc
        refine h c ?_
        rw [List.getLast?_append,List.getLast?_cons,Option.mem_def.mp hc]
        rfl
      obtain ⟨lines,hl,rfl⟩ := ih rest.length (by simp; omega) hrest rfl
      refine ⟨line :: lines,?_,?_⟩
      · rintro l (_ | ⟨_,hmem⟩)
        · exact hline
        · exact hl l hmem
      · simp [ofLines]

theorem Whole.append {text' : List Char} (h : Whole text) (h' : Whole text') : Whole (text ++ text') := by
  intro c hc
  rw [List.getLast?_append,Option.mem_def,Option.or_eq_some_iff] at hc
  obtain hc | ⟨-,hc⟩ := hc
  · exact h' c hc
  · exact h c hc

theorem completedLines_append {text' : List Char} (h : Whole text) :
    completedLines (text ++ text') = completedLines text ++ completedLines text' := by
  obtain ⟨lines,hl,rfl⟩ := h.exists_lines
  rw [completedLines_ofLines_append hl,completedLines_ofLines hl]

namespace LineStream

theorem eof_fail_of_good (hs : s.good) : s.eof = false ∧ s.fail = false := by
  unfold good at hs
  rwa [Bool.and_eq_true,Bool.not_eq_true',Bool.not_eq_true'] at hs

theorem taken_line (hl : '\n' ∉ line) (hsize : line.length < size) (more : List Char) :
    taken size (line ++ '\n' :: more) = line := by
  have hpos : ∀ c ∈ line, (c ≠ '\n' : Bool) = true := by
    intro c hc
    refine decide_eq_true ?_
    rintro rfl
    exact hl hc
  unfold taken
  rw [List.takeWhile_append_of_pos hpos,List.takeWhile_cons_of_neg (by simp),List.append_nil]
  exact List.take_of_length_le (Nat.le_sub_one_of_lt hsize)

/-- A line that fits is taken together with its end. -/
theorem getline_line (hs : s.good) (hl : '\n' ∉ line) (hsize : line.length < size) (more : List Char)
    (hrest : s.rest = line ++ '\n' :: more) :
    s.getline size = ({ s with before := s.before ++ line ++ ['\n'], rest := more },line) := by
  unfold getline
  rw [if_pos hs,hrest,taken_line hl hsize more]
  simp only [List.drop_left,if_true]

/-- The last round. -/
theorem getline_end (hs : s.good) (hrest : s.rest = []) :
    s.getline size = ({ before := s.before, rest := [], eof := true, fail := true },[]) := by
  unfold getline
  rw [if_pos hs,hrest]
  simp [taken]

/-- Short lines are all read, and after them an empty one. -/
theorem readLines_ofLines (hs : s.good) (hl : ∀ l ∈ lines, '\n' ∉ l ∧ l.length < size)
    (hrest : s.rest = ofLines lines) (hfuel : lines.length + 2 ≤ fuel) :
    s.readLines size fuel = some ({ before := s.file, rest := [], eof := true, fail := true },lines ++ [[]]) := by
  induction lines generalizing s fuel with
  | nil =>
    obtain ⟨fuel,rfl⟩ := Nat.exists_eq_add_of_le' hfuel
    simp [readLines,(eof_fail_of_good hs).1,getline_end hs hrest,file,hrest,ofLines]
  | cons l lines ih =>
    obtain ⟨fuel,rfl⟩ := Nat.exists_eq_add_of_le' (Nat.le_of_add_left_le hfuel : 1 ≤ fuel)
    obtain ⟨hline,hsize⟩ := hl l List.mem_cons_self
    have hrest' : s.rest = l ++ '\n' :: ofLines lines := by
      rw [hrest]
      simp [ofLines]
    have hnext := ih (s := { s with before := s.before ++ l ++ ['\n'], rest := ofLines lines }) hs
      (fun l' h => hl l' (List.mem_cons_of_mem l h)) rfl (show lines.length + 2 ≤ fuel by simp at hfuel; omega)
    have hopen : ¬s.eof = true := by simp [(eof_fail_of_good hs).1]
    rw [readLines,if_neg hopen,getline_line hs hline hsize _ hrest']
    simp only [hnext]
    simp [file,hrest']

/-- What a round does: it meets the end of the file, takes something or fails. -/
theorem getline_cases (size : ℕ) (hs : s.good) :
    (s.getline size).1.eof = true ∨
    ((s.getline size).1.good ∧ (s.getline size).1.rest.length < s.rest.length) ∨
    ((s.getline size).1.eof = false ∧ (s.getline size).1.fail = true) := by
  obtain ⟨heof,hfail⟩ := eof_fail_of_good hs
  unfold getline
  rw [if_pos hs]
  cases hdrop : s.rest.drop (taken size s.rest).length with
  | nil =>
    simp only [hdrop]
    exact .inl trivial
  | cons c rest =>
    have hlt : rest.length < s.rest.length := by
      have := congrArg List.length hdrop
      rw [List.length_drop,List.length_cons] at this
      omega
    simp only [hdrop]
    split
    · exact .inr (.inl ⟨hs,hlt⟩)
    · exact .inr (.inr ⟨heof,rfl⟩)

/-- After a failure the end of the file is never met. -/
theorem readLines_of_fail (hf : s.fail = true) (he : s.eof = false) : s.readLines size fuel = none := by
  induction fuel with
  | zero => rfl
  | succ fuel ih =>
    have hget : s.getline size = (s,[]) := by
      unfold getline good
      obtain ⟨before,rest,eof,fail⟩ := s
      cases hf
      cases he
      rfl
    rw [readLines,he,hget]
    simp [ih]

/-- With this much fuel the loop has a result, unless it never ends. -/
theorem readLines_eq_none (hs : s.good) (hfuel : s.rest.length + 2 ≤ fuel) (h : s.readLines size fuel = none)
    (fuel' : ℕ) : s.readLines size fuel' = none := by
  obtain ⟨heof,hfail⟩ := eof_fail_of_good hs
  induction fuel' generalizing s fuel with
  | zero => rfl
  | succ fuel' ih =>
    obtain ⟨fuel,rfl⟩ := Nat.exists_eq_add_of_le' (Nat.le_of_add_left_le hfuel : 1 ≤ fuel)
    rw [readLines,heof] at h ⊢
    rw [if_neg (by simp)] at h ⊢
    rw [Option.map_eq_none_iff] at h ⊢
    obtain hend | ⟨hgood,hlt⟩ | ⟨he,hf⟩ := getline_cases size hs
    · obtain ⟨fuel,rfl⟩ := Nat.exists_eq_add_of_le' (show 1 ≤ fuel by omega)
      rw [readLines,if_pos hend] at h
      cases h
    · obtain ⟨he,hf⟩ := eof_fail_of_good hgood
      exact ih hgood (by omega) h he hf
    · exact readLines_of_fail hf he

end LineStream
end OnlDaemons.Lib
