import OnlDaemons.Lib.LineStream
import OnlDaemons.Lib.Run
import Mathlib.Data.List.TakeWhile

/-!
# User data

The RLI plots a field of a file that a program of the user writes line by line. A poll reads what has been added to the
file since the last one and takes a value from each line, with the last field as its time stamp.

## Main definitions

- `readLastValue`, `readNextValues` — the two kinds of polls
- `UserData`, `UserData.step` — the file, the polls and what they have returned
- `UserData.Exact` — every poll has ended, and each line has given its value
- `UserData.Careful` — the steps that keep it so

## Main result

- `exact_of_careful`
-/

namespace OnlDaemons.Base
open OnlDaemons.Lib

structure TsData where
  ts : UInt32
  rate : UInt32
  val : UInt32
deriving DecidableEq, Repr

/-- `isspace` -/
def isSpace (c : Char) : Bool := c ∈ [' ','\t','\n','\x0b','\x0c','\r']

/-- The words that `>>` takes from a `stringstream`. -/
def words (line : List Char) : List (List Char) := (line.splitOnP isSpace).filter (· ≠ [])

/-- What `strlen` and the `stringstream` see of the buffer. -/
def cstr (line : List Char) : List Char := line.takeWhile (· ≠ '\x00')

/-- The size of the buffers. -/
def lineSize : ℕ := 2048

section Values

-- `millis` is the value of `(uint32_t)(atof(word) * 1000)`
variable (atoi millis : List Char → UInt32) (fieldnum : ℕ)

/-- `get_val`, from the word with the number `i` on: the value, and the words that are left in the stream. -/
def getVal (i : ℕ) : List (List Char) → UInt32 × List (List Char)
  | [] => (0,[])
  | word :: ss => if i = fieldnum then (atoi word,ss) else getVal (i + 1) ss

/-- `get_ts`, in milliseconds. -/
def getTs (ss : List (List Char)) : UInt32 := ss.foldl (fun _ word => millis word) 0

/-- The value that `read_next_values` takes from a line. -/
def nextVal (line : List Char) : TsData :=
  let (val,ss) := getVal atoi fieldnum 0 (words line)
  { val, ts := getTs millis ss, rate := 1000 }

/-- The value of the selected field of a line, and the time stamp in its last field. A field that is missing is 0. -/
def lineValue (line : List Char) : TsData where
  val := ((words line)[fieldnum]?).elim 0 atoi
  ts := (words line).getLast?.elim 0 millis
  rate := 1000

/-- The buffers that are not empty. -/
def bufferedLines (lines : List (List Char)) : List (List Char) := (lines.map cstr).filter (· ≠ [])

/-- `read_last_value`. There is no result if it does not end. -/
def readLastValue (s : LineStream) : Option (Except String (LineStream × UInt32)) :=
  let s := s.rewind
  if !s.good then some (.error "error reading file")
  else do
    let (s,lines) ← s.readLines lineSize (s.rest.length + 2)
    let line := (bufferedLines lines).getLast?.getD []
    pure (.ok (s.clear,if line = [] then 0 else (getVal atoi fieldnum 0 (words line)).1))

/-- `read_next_values`, with the values it puts into the list. -/
def readNextValues (s : LineStream) : Option (Except String (LineStream × List TsData)) :=
  if !s.good then some (.error "error reading file")
  else do
    let (s,lines) ← s.readLines lineSize (s.rest.length + 2)
    pure (.ok (s.clear,(bufferedLines lines).map (nextVal atoi millis fieldnum)))

end Values

/-- `hung` says that a call does not end. `returned` records the values of the polls, and `opened` and `polled` how long
the file was when it was opened and at the last poll. -/
structure UserData where
  stream : LineStream
  isOpen : Bool
  hung : Bool
  returned : List TsData
  opened : ℕ
  polled : ℕ

/-- A file that grows during a poll is as it is when its end is met. -/
inductive UserAct
  | append (piece : List Char)
  | userdata
  | readLastValue
  | readNextValues
deriving DecidableEq, Repr

namespace UserData

variable (atoi millis : List Char → UInt32) (fieldnum : ℕ)

def init : UserData where
  stream := { rest := [] }
  isOpen := false
  hung := false
  returned := []
  opened := 0
  polled := 0

def step (s : UserData) : UserAct → Option UserData
  | .append piece => some { s with stream := s.stream.append piece }
  | .userdata =>
    if s.isOpen || s.hung then none
    else match Base.readLastValue atoi fieldnum s.stream with
      | none => some { s with hung := true }
      | some (.error _) => some s
      | some (.ok (stream,_)) =>
        some { s with
          stream := stream
          isOpen := true
          opened := stream.file.length
          polled := stream.file.length }
  | .readLastValue =>
    if !s.isOpen || s.hung then none
    else match Base.readLastValue atoi fieldnum s.stream with
      | none => some { s with hung := true }
      | some (.error _) => some s
      | some (.ok (stream,_)) => some { s with stream := stream }
  | .readNextValues =>
    if !s.isOpen || s.hung then none
    else match Base.readNextValues atoi millis fieldnum s.stream with
      | none => some { s with hung := true }
      | some (.error _) => some s
      | some (.ok (stream,vals)) =>
        some { s with stream := stream, returned := s.returned ++ vals, polled := stream.file.length }

/-- The lines of the file that have been ended between the opening and the last poll. -/
def polledLines (s : UserData) : List (List Char) :=
  ((completedLines (s.stream.file.take s.polled)).drop (completedLines (s.stream.file.take s.opened)).length).filter
    (· ≠ [])

/-- Every call has ended, and the polls have returned one value for each line. -/
def Exact (s : UserData) : Prop :=
  s.hung = false ∧ s.returned = s.polledLines.map (lineValue atoi millis fieldnum)

instance (s : UserData) : Decidable (s.Exact atoi millis fieldnum) := by unfold Exact; infer_instance

/-- The last line is ended, and every line fits into the buffer. -/
def Readable (text : List Char) : Prop := Whole text ∧ ∀ l ∈ completedLines text, l.length < lineSize

/-- The line has a field after the selected one, unless its time stamp is that of a missing one anyway. -/
def Stamped (line : List Char) : Prop :=
  '\x00' ∉ line ∧ (fieldnum + 1 < (words line).length ∨ (words line).getLast?.elim 0 millis = 0)

/-- What has been added to the file since the last poll. -/
def added (s : UserData) : List Char := s.stream.file.drop s.polled

/-- A call finds a file that it can read, a poll only lines with a time stamp, and the last value is not asked for
between the lines and the poll. -/
def Careful (s : UserData) (a : UserAct) (_ : UserData) : Prop :=
  match a with
  | .append _ => True
  | .userdata => Readable s.stream.file
  | .readLastValue => Readable s.stream.file ∧ s.added = []
  | .readNextValues => Readable s.added ∧ ∀ l ∈ completedLines s.added, Stamped millis fieldnum l

instance (text : List Char) : Decidable (Readable text) := by unfold Readable; infer_instance

instance (s : UserData) (a : UserAct) (u : UserData) : Decidable (s.Careful millis fieldnum a u) := by
  cases a <;> unfold Careful Stamped <;> infer_instance

/-- Everything up to the last poll has been read, and nothing else. -/
structure Inv (s : UserData) : Prop where
  good : s.stream.good
  hung : s.hung = false
  closed : s.isOpen = false → s.returned = []
  polled : s.stream.before.length = s.polled
  opened : s.opened ≤ s.polled
  whole : Whole s.stream.before
  wholeOpened : Whole (s.stream.before.take s.opened)
  returned : s.returned = s.polledLines.map (lineValue atoi millis fieldnum)

end UserData

variable {atoi millis : List Char → UInt32} {fieldnum : ℕ} {s : LineStream} {line : List Char}

theorem getVal_eq (l : List (List Char)) {i : ℕ} (hi : i ≤ fieldnum) :
    getVal atoi fieldnum i l = (l[fieldnum - i]?.elim 0 atoi,l.drop (fieldnum - i + 1)) := by
  induction l generalizing i with
  | nil => simp [getVal]
  | cons word l ih =>
    unfold getVal
    split
    · next h => simp [h]
    · next h =>
      obtain ⟨k,hk⟩ : ∃ k, fieldnum - i = k + 1 := ⟨fieldnum - i - 1,by omega⟩
      rw [ih (by omega),hk,show fieldnum - (i + 1) = k by omega]
      rfl

theorem getTs_eq (l : List (List Char)) : getTs millis l = l.getLast?.elim 0 millis := by
  unfold getTs
  obtain rfl | ⟨l,word,rfl⟩ := l.eq_nil_or_concat
  · rfl
  · simp

theorem nextVal_eq (h : UserData.Stamped millis fieldnum line) :
    nextVal atoi millis fieldnum line = lineValue atoi millis fieldnum line := by
  unfold nextVal lineValue
  rw [getVal_eq _ (Nat.zero_le _),Nat.sub_zero]
  simp only [getTs_eq,List.getLast?_drop]
  split
  · next hlen =>
    obtain hlt | hzero := h.2
    · omega
    · rw [hzero]
      rfl
  · rfl

theorem bufferedLines_eq {lines : List (List Char)} (h : ∀ l ∈ lines, '\x00' ∉ l) :
    bufferedLines (lines ++ [[]]) = lines.filter (· ≠ []) := by
  have hcstr : lines.map cstr = lines := by
    refine (List.map_congr_left fun l hl => ?_).trans (List.map_id lines)
    refine List.takeWhile_eq_self_iff.mpr fun c hc => decide_eq_true ?_
    rintro rfl
    exact h l hl hc
  unfold bufferedLines
  rw [List.map_append,hcstr,List.filter_append]
  simp [cstr]

/-- A file that can be read is read to its end. -/
theorem readLines_readable (hs : s.good) (h : UserData.Readable s.rest) :
    s.readLines lineSize (s.rest.length + 2) =
      some ({ before := s.file, rest := [], eof := true, fail := true },completedLines s.rest ++ [[]]) := by
  obtain ⟨lines,hl,hrest⟩ := h.1.exists_lines
  have hlines : completedLines s.rest = lines := by rw [hrest,completedLines_ofLines hl]
  rw [hlines]
  refine LineStream.readLines_ofLines hs (fun l hmem => ⟨hl l hmem,h.2 l (hlines ▸ hmem)⟩) hrest ?_
  rw [hrest]
  exact Nat.add_le_add_right (length_le_length_ofLines lines) 2

theorem readLastValue_spec (atoi : List Char → UInt32) (fieldnum : ℕ) (hs : s.good) (h : UserData.Readable s.file) :
    ∃ val, readLastValue atoi fieldnum s = some (.ok ({ before := s.file, rest := [] },val)) := by
  obtain ⟨-,hfail⟩ := LineStream.eof_fail_of_good hs
  have hrewind : s.rewind = { rest := s.file } := by simp [LineStream.rewind,hfail]
  have hread := readLines_readable (s := { rest := s.file }) rfl h
  unfold readLastValue
  rw [hrewind]
  simp only [hread]
  exact ⟨_,rfl⟩

theorem readNextValues_spec (hs : s.good) (h : UserData.Readable s.rest)
    (hstamp : ∀ l ∈ completedLines s.rest, UserData.Stamped millis fieldnum l) :
    readNextValues atoi millis fieldnum s = some (.ok ({ before := s.file, rest := [] },
      ((completedLines s.rest).filter (· ≠ [])).map (lineValue atoi millis fieldnum))) := by
  have hvals : ((completedLines s.rest).filter (· ≠ [])).map (nextVal atoi millis fieldnum) =
      ((completedLines s.rest).filter (· ≠ [])).map (lineValue atoi millis fieldnum) :=
    List.map_congr_left fun l hl => nextVal_eq (hstamp l (List.mem_filter.mp hl).1)
  unfold readNextValues
  rw [hs,readLines_readable hs h,← hvals,← bufferedLines_eq fun l hl => (hstamp l hl).1]
  rfl

/-- A poll without a result never ends. -/
theorem readNextValues_eq_none (h : readNextValues atoi millis fieldnum s = none) (fuel : ℕ) :
    s.readLines lineSize fuel = none := by
  unfold readNextValues at h
  split at h
  · cases h
  · next hs =>
    refine LineStream.readLines_eq_none (by simpa using hs) (Nat.le_refl _) ?_ fuel
    cases hread : s.readLines lineSize (s.rest.length + 2) with
    | none => rfl
    | some r =>
      rw [hread] at h
      cases h

namespace UserData

variable {s u : UserData}

theorem inv_init : (init).Inv atoi millis fieldnum where
  good := rfl
  hung := rfl
  closed _ := rfl
  polled := rfl
  opened := Nat.le_refl 0
  whole := nofun
  wholeOpened := nofun
  returned := rfl

theorem polledLines_eq (hpolled : s.stream.before.length = s.polled) (hopened : s.opened ≤ s.polled) :
    s.polledLines = ((completedLines s.stream.before).drop
      (completedLines (s.stream.before.take s.opened)).length).filter (· ≠ []) := by
  unfold polledLines LineStream.file
  rw [← hpolled,List.take_left,List.take_append_of_le_length (hpolled ▸ hopened)]

theorem Inv.exact (h : s.Inv atoi millis fieldnum) : s.Exact atoi millis fieldnum := ⟨h.hung,h.returned⟩

theorem Inv.added_eq (h : s.Inv atoi millis fieldnum) : s.added = s.stream.rest := by
  unfold added LineStream.file
  rw [← h.polled,List.drop_left]

theorem Inv.append (h : s.Inv atoi millis fieldnum) (piece : List Char) :
    Inv atoi millis fieldnum { s with stream := s.stream.append piece } where
  good := h.good
  hung := h.hung
  closed := h.closed
  polled := h.polled
  opened := h.opened
  whole := h.whole
  wholeOpened := h.wholeOpened
  returned := by
    rw [h.returned,polledLines_eq h.polled h.opened]
    exact congrArg _ (polledLines_eq (s := { s with stream := s.stream.append piece }) h.polled h.opened).symm

theorem Inv.userdata (h : s.Inv atoi millis fieldnum) (hclosed : s.isOpen = false) (hread : Readable s.stream.file) :
    Inv atoi millis fieldnum { s with
      stream := { before := s.stream.file, rest := [] }
      isOpen := true
      opened := s.stream.file.length
      polled := s.stream.file.length } where
  good := rfl
  hung := h.hung
  closed := nofun
  polled := rfl
  opened := Nat.le_refl _
  whole := hread.1
  wholeOpened := by
    simp only [List.take_length]
    exact hread.1
  returned := by
    simp only [h.closed hclosed,polledLines,LineStream.file,List.append_nil,List.take_length,List.drop_length]
    rfl

theorem Inv.readNextValues (h : s.Inv atoi millis fieldnum) (hopen : s.isOpen = true) (hread : Readable s.added) :
    Inv atoi millis fieldnum { s with
      stream := { before := s.stream.file, rest := [] }
      returned := s.returned ++ ((completedLines s.stream.rest).filter (· ≠ [])).map (lineValue atoi millis fieldnum)
      polled := s.stream.file.length } := by
  rw [h.added_eq] at hread
  have hle : s.opened ≤ s.stream.before.length := h.polled ▸ h.opened
  have htake : s.stream.file.take s.opened = s.stream.before.take s.opened := List.take_append_of_le_length hle
  have hlines : completedLines s.stream.file = completedLines s.stream.before ++ completedLines s.stream.rest :=
    completedLines_append h.whole
  have hcut : (completedLines (s.stream.before.take s.opened)).length ≤ (completedLines s.stream.before).length := by
    have hsplit : completedLines (s.stream.before.take s.opened ++ s.stream.before.drop s.opened) =
        completedLines (s.stream.before.take s.opened) ++ completedLines (s.stream.before.drop s.opened) :=
      completedLines_append h.wholeOpened
    rw [List.take_append_drop] at hsplit
    rw [hsplit,List.length_append]
    exact Nat.le_add_right _ _
  refine ⟨rfl,h.hung,fun hclosed => ?_,rfl,?_,?_,?_,?_⟩
  · rw [show s.isOpen = false from hclosed] at hopen
    cases hopen
  · exact hle.trans (by simp [LineStream.file])
  · exact h.whole.append hread.1
  · show Whole (s.stream.file.take s.opened)
    rw [htake]
    exact h.wholeOpened
  · rw [h.returned,polledLines_eq h.polled h.opened,← List.map_append,← List.filter_append]
    simp only [polledLines,LineStream.file,List.append_nil,List.take_length]
    rw [show s.stream.before ++ s.stream.rest = s.stream.file from rfl,htake,hlines,List.drop_append_of_le_length hcut]

theorem Inv.step {a : UserAct} (h : s.Inv atoi millis fieldnum) (hu : s.step atoi millis fieldnum a = some u)
    (hc : s.Careful millis fieldnum a u) : u.Inv atoi millis fieldnum := by
  cases a with
  | append piece =>
    cases hu
    exact h.append piece
  | userdata =>
    simp only [UserData.step] at hu
    split at hu
    · cases hu
    · next hno =>
      obtain ⟨val,hval⟩ := readLastValue_spec atoi fieldnum h.good hc
      rw [hval] at hu
      cases hu
      have hclosed : s.isOpen = false := by grind
      have hlen : ({ before := s.stream.file, rest := [] } : LineStream).file = s.stream.file := List.append_nil _
      rw [hlen]
      exact h.userdata hclosed hc
  | readLastValue =>
    simp only [UserData.step] at hu
    split at hu
    · cases hu
    · obtain ⟨hread,hadded⟩ := hc
      obtain ⟨val,hval⟩ := readLastValue_spec atoi fieldnum h.good hread
      rw [hval] at hu
      cases hu
      rw [h.added_eq] at hadded
      -- nothing is left to read, so the stream is where it was
      have hsame : ({ before := s.stream.file, rest := [] } : LineStream) = s.stream := by
        obtain ⟨heof,hfail⟩ := LineStream.eof_fail_of_good h.good
        unfold LineStream.file
        rw [hadded,List.append_nil]
        obtain ⟨⟨before,rest,eof,fail⟩,_⟩ := s
        cases hadded
        cases heof
        cases hfail
        rfl
      rw [hsame]
      exact h
  | readNextValues =>
    simp only [UserData.step] at hu
    split at hu
    · cases hu
    · next hno =>
      obtain ⟨hread,hstamp⟩ := hc
      have hopen : s.isOpen = true := by grind
      rw [h.added_eq] at hread hstamp
      rw [readNextValues_spec h.good hread hstamp] at hu
      cases hu
      have hlen : ({ before := s.stream.file, rest := [] } : LineStream).file = s.stream.file := List.append_nil _
      rw [hlen]
      exact h.readNextValues hopen (h.added_eq ▸ hread)

/-- The polls are exact in runs in which every call finds ended lines that fit into the buffer and have their time stamp
after the selected field. -/
theorem exact_of_careful (atoi millis : List Char → UInt32) (fieldnum : ℕ) (tr : List (UserAct × UserData))
    (hr : IsRun (fun s a u => s.step atoi millis fieldnum a = some u) init tr)
    (hc : EveryStep (Careful millis fieldnum) init tr) :
    EveryState (Exact atoi millis fieldnum) init tr :=
  (hr.everyState (P := Inv atoi millis fieldnum) (fun _ _ _ h hu hcare => h.step hu hcare) inv_init hc).mono
    fun _ h => h.exact

/-- Two lines are added to an empty file, and then polled. -/
def onePoll : List (UserAct × UserData) :=
  runOf (step (fun _ => 7) (fun _ => 1000) 0) init
    [.userdata,.append ['7',' ','1','\n','\n','7',' ','1','\n'],.readNextValues]

theorem exact_onePoll : EveryState (Exact (fun _ => 7) (fun _ => 1000) 0) init onePoll :=
  exact_of_careful _ _ 0 onePoll (isRun_runOf _ _ _) (by decide)

/-- The line is polled before and after its end is written. -/
def halfLine : List (UserAct × UserData) :=
  runOf (step (fun _ => 7) (fun _ => 1000) 0) init
    [.userdata,.append ['7',' ','1'],.readNextValues]

theorem halfLine_not_exact :
    ¬∀ tr : List (UserAct × UserData), IsRun (fun s a u => s.step (fun _ => 7) (fun _ => 1000) 0 a = some u) init tr →
      EveryState (Exact (fun _ => 7) (fun _ => 1000) 0) init tr := by
  intro h
  have hlast := (h halfLine (isRun_runOf _ _ _)).last
  have hno : ¬Exact (fun _ => 7) (fun _ => 1000) 0 (lastState init halfLine) := by decide
  exact hno hlast

end UserData
end OnlDaemons.Base
