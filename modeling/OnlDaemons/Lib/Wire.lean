import Mathlib.Data.List.Range
import Mathlib.Data.List.Basic
import Mathlib.Tactic.Common
import Mathlib.Tactic.Ring

/-!
# Reading a byte format through an unchecked cursor

A reader that takes bytes at a cursor of 32 bits and never asks where the bytes end. It keeps
a record of the positions it looked at and of how often each of its loops went round. Such a
reader is compared with two descriptions of the format it reads: the bytes an encoder wrote
(`Decodes`), and a `Layout`, which says how many bytes the format takes at the start of a
string and is undefined where the string is too short (`Follows`).

## Main definitions

- `Decoder α` — readers of memory with a cursor
- `Decodes d bs a` — where `bs` stands in memory, `d` reads it as `a`
- `Layout` — how many bytes a format takes
- `Follows d l` — `d` stays inside any bound that `l` fits in, and overruns the others
-/

namespace OnlDaemons.Lib

variable {α β : Type}

/-! ### Words -/

/-- The number a string of bytes stands for, the most significant byte first. -/
def bigEndian (bs : List UInt8) : ℕ := bs.foldl (fun v b => v * 256 + b.toNat) 0

/-- The last `k` bytes of a number, the most significant byte first. -/
def bytesOf : ℕ → ℕ → List UInt8
  | 0, _ => []
  | k + 1, v => bytesOf k (v / 256) ++ [UInt8.ofNat v]

@[simp] theorem length_bytesOf (k v : ℕ) : (bytesOf k v).length = k := by
  induction k generalizing v with
  | zero => rfl
  | succ k ih => rw [bytesOf, List.length_append, ih, List.length_singleton]

theorem bigEndian_append_singleton (bs : List UInt8) (b : UInt8) :
    bigEndian (bs ++ [b]) = bigEndian bs * 256 + b.toNat := by
  rw [bigEndian, List.foldl_append]
  rfl

theorem bigEndian_bytesOf (k v : ℕ) : bigEndian (bytesOf k v) = v % 256 ^ k := by
  induction k generalizing v with
  | zero =>
    rw [pow_zero, Nat.mod_one]
    rfl
  | succ k ih =>
    rw [bytesOf, bigEndian_append_singleton, ih, UInt8.toNat_ofNat', pow_succ' 256 k,
      Nat.mod_mul]
    omega

theorem bigEndian_lt (bs : List UInt8) : bigEndian bs < 256 ^ bs.length := by
  induction bs using List.reverseRecOn with
  | nil => decide
  | append_singleton bs b ih =>
    have hb := b.toNat_lt
    rw [bigEndian_append_singleton, List.length_append, List.length_singleton, pow_succ]
    omega

theorem bytesOf_bigEndian (bs : List UInt8) : bytesOf bs.length (bigEndian bs) = bs := by
  induction bs using List.reverseRecOn with
  | nil => rfl
  | append_singleton bs b ih =>
    have hb := b.toNat_lt
    have hdiv : (bigEndian bs * 256 + b.toNat) / 256 = bigEndian bs := by omega
    have hlast : UInt8.ofNat (bigEndian bs * 256 + b.toNat) = b := by
      apply UInt8.toNat_inj.mp
      rw [UInt8.toNat_ofNat']
      omega
    rw [bigEndian_append_singleton, List.length_append, List.length_singleton, bytesOf, hdiv, ih, hlast]

/-! ### Memory -/

/-- The `k` bytes of memory from position `p` on. -/
def window (mem : ℕ → UInt8) (p k : ℕ) : List UInt8 := (List.range' p k).map mem

@[simp] theorem length_window (mem : ℕ → UInt8) (p k : ℕ) : (window mem p k).length = k := by
  rw [window, List.length_map, List.length_range']

theorem window_add (mem : ℕ → UInt8) (p j k : ℕ) :
    window mem p (j + k) = window mem p j ++ window mem (p + j) k := by
  rw [window, ← List.range'_append_1, List.map_append]
  rfl

theorem take_window (mem : ℕ → UInt8) (p : ℕ) {k m : ℕ} (h : k ≤ m) :
    (window mem p m).take k = window mem p k := by
  obtain ⟨j, rfl⟩ := Nat.exists_eq_add_of_le h
  rw [window_add, List.take_left' (length_window mem p k)]

theorem drop_window (mem : ℕ → UInt8) (p k m : ℕ) :
    (window mem p m).drop k = window mem (p + k) (m - k) := by
  rcases Nat.le_total k m with h | h
  · obtain ⟨j, rfl⟩ := Nat.exists_eq_add_of_le h
    rw [window_add, List.drop_left' (length_window mem p k), Nat.add_sub_cancel_left]
  · rw [Nat.sub_eq_zero_of_le h, List.drop_eq_nil_of_le (by rw [length_window]; exact h)]
    rfl

/-- The bytes `bs` stand in memory from position `p` on. -/
def Holds (mem : ℕ → UInt8) (p : ℕ) (bs : List UInt8) : Prop := window mem p bs.length = bs

theorem holds_append {mem : ℕ → UInt8} {p : ℕ} {bs cs : List UInt8} :
    Holds mem p (bs ++ cs) ↔ Holds mem p bs ∧ Holds mem (p + bs.length) cs := by
  rw [Holds, List.length_append, window_add]
  constructor
  · intro h
    exact List.append_inj h (length_window mem p bs.length)
  · rintro ⟨hb, hc⟩
    rw [hb, hc]

/-- Memory in which the bytes `bs` are written from position `p` on. -/
def overwrite (mem : ℕ → UInt8) (p : ℕ) (bs : List UInt8) : ℕ → UInt8 := fun i =>
  if p ≤ i ∧ i < p + bs.length then bs.getD (i - p) 0 else mem i

theorem holds_overwrite (mem : ℕ → UInt8) (p : ℕ) (bs : List UInt8) :
    Holds (overwrite mem p bs) p bs := by
  rw [Holds, window]
  apply List.ext_getElem
  · rw [List.length_map, List.length_range']
  · intro i _ hi
    rw [List.getElem_map, List.getElem_range', overwrite, if_pos ⟨by omega, by omega⟩,
      List.getD_eq_getElem?_getD, List.getElem?_eq_getElem (by omega), Option.getD_some]
    congr 1
    omega

theorem window_overwrite_before (mem : ℕ → UInt8) {p q k : ℕ} (bs : List UInt8) (h : p + k ≤ q) :
    window (overwrite mem q bs) p k = window mem p k := by
  apply List.map_congr_left
  intro i hi
  obtain ⟨j, hj, rfl⟩ := List.mem_range'.mp hi
  rw [overwrite, if_neg (by omega)]

/-- Bytes that are written behind others. -/
theorem window_overwrite (mem : ℕ → UInt8) (p k : ℕ) (bs : List UInt8) :
    window (overwrite mem (p + k) bs) p (k + bs.length) = window mem p k ++ bs := by
  rw [window_add, window_overwrite_before mem bs le_rfl]
  congr 1
  exact holds_overwrite mem (p + k) bs

/-! ### Readers -/

/-- Where a reader stands, with the positions it has looked at and the number of rounds of each
loop it has entered. -/
structure Cursor where
  pos : ℕ
  seen : List ℕ
  trips : List ℕ

/-- A reader at position `p` that has done nothing yet. -/
def Cursor.at (p : ℕ) : Cursor := { pos := p, seen := [], trips := [] }

abbrev Decoder (α : Type) := ReaderT (ℕ → UInt8) (StateM Cursor) α

theorem Decoder.bind_apply (d : Decoder α) (f : α → Decoder β) (mem : ℕ → UInt8) (c : Cursor) :
    (d >>= f) mem c = f (d mem c).1 mem (d mem c).2 := rfl

/-- The next `k` bytes. The cursor is an unsigned number of 32 bits. -/
def fetch (k : ℕ) : Decoder (List UInt8) := fun mem c =>
  (window mem c.pos k,
    { c with pos := (c.pos + k) % 2 ^ 32, seen := c.seen ++ List.range' c.pos k })

/-- The next `k` bytes as a number. -/
def fetchWord (k : ℕ) : Decoder ℕ := do
  let bs ← fetch k
  pure (bigEndian bs)

/-- A loop of `n` rounds is entered. -/
def enter (n : ℕ) : Decoder Unit := fun _ c => ((), { c with trips := c.trips ++ [n] })

/-- The bytes from the position up to `n`, which does not move the position. -/
def restUpTo (n : ℕ) : Decoder (List UInt8) := fun mem c =>
  (window mem c.pos (n - c.pos),
    { c with
      seen := c.seen ++ List.range' c.pos (n - c.pos)
      trips := c.trips ++ [n - c.pos] })

/-- What `n` rounds of a reader read. -/
def times (d : Decoder α) : ℕ → Decoder (List α)
  | 0 => pure []
  | n + 1 => do
    let a ← d
    let as ← times d n
    pure (a :: as)

/-- A loop of `n` rounds. -/
def loop (n : ℕ) (d : Decoder α) : Decoder (List α) := do
  enter n
  times d n

/-! ### Reading what an encoder wrote -/

/-- Where the bytes `bs` stand at the cursor, the reader takes exactly these bytes, as the value
`a`. Nothing is asked of the memory after them. -/
def Decodes (d : Decoder α) (bs : List UInt8) (a : α) : Prop :=
  ∀ mem c, Holds mem c.pos bs → c.pos + bs.length < 2 ^ 32 →
    (d mem c).1 = a ∧ (d mem c).2.pos = c.pos + bs.length

theorem decodes_pure (a : α) : Decodes (pure a) [] a := by
  intro mem c _ _
  exact ⟨rfl, rfl⟩

theorem Decodes.bind {d : Decoder α} {f : α → Decoder β} {bs cs : List UInt8} {a : α} {b : β}
    (hd : Decodes d bs a) (hf : Decodes (f a) cs b) : Decodes (d >>= f) (bs ++ cs) b := by
  intro mem c hc hlt
  rw [holds_append] at hc
  rw [List.length_append] at hlt ⊢
  obtain ⟨hval, hpos⟩ := hd mem c hc.1 (by omega)
  have hrest := hf mem (d mem c).2 (by rw [hpos]; exact hc.2) (by omega)
  rw [Decoder.bind_apply, hval]
  exact ⟨hrest.1, by rw [hrest.2, hpos, Nat.add_assoc]⟩

/-- The last reader of a sequence. -/
theorem Decodes.map {d : Decoder α} {bs : List UInt8} {a : α} (hd : Decodes d bs a)
    (g : α → β) : Decodes (do let x ← d; pure (g x)) bs (g a) := by
  have h := hd.bind (f := fun x => pure (g x)) (decodes_pure (g a))
  rw [List.append_nil] at h
  exact h

theorem decodes_fetch {k : ℕ} {bs : List UInt8} (h : bs.length = k) :
    Decodes (fetch k) bs bs := by
  subst h
  intro mem c hc hlt
  exact ⟨hc, Nat.mod_eq_of_lt hlt⟩

theorem decodes_fetchWord {k v : ℕ} (h : v < 256 ^ k) :
    Decodes (fetchWord k) (bytesOf k v) v := by
  have hd := (decodes_fetch (length_bytesOf k v)).map bigEndian
  rwa [bigEndian_bytesOf, Nat.mod_eq_of_lt h] at hd

theorem decodes_times {d : Decoder α} {enc : β → List UInt8} {g : β → α} (bs : List β)
    (hd : ∀ b ∈ bs, Decodes d (enc b) (g b)) :
    Decodes (times d bs.length) (bs.flatMap enc) (bs.map g) := by
  induction bs with
  | nil => exact decodes_pure []
  | cons b bs ih =>
    have hb := hd b List.mem_cons_self
    have hbs := ih (fun x hx => hd x (List.mem_cons_of_mem b hx))
    exact hb.bind (hbs.map (g b :: ·))

theorem decodes_loop {d : Decoder α} {enc : β → List UInt8} {g : β → α} (bs : List β)
    (hd : ∀ b ∈ bs, Decodes d (enc b) (g b)) :
    Decodes (loop bs.length d) (bs.flatMap enc) (bs.map g) := by
  intro mem c hc hlt
  exact decodes_times bs hd mem { c with trips := c.trips ++ [bs.length] } hc hlt

/-! ### Layouts -/

/-- How many bytes a format takes at the start of a string, if the string is long enough. -/
abbrev Layout := List UInt8 → Option ℕ

namespace Layout

/-- A format of no bytes. -/
def none : Layout := fun _ => some 0

/-- Any `k` bytes. -/
def skip (k : ℕ) : Layout := fun bs => if k ≤ bs.length then some k else Option.none

/-- One format after the other. -/
def seq (l l' : Layout) : Layout := fun bs =>
  (l bs).bind fun k => (l' (bs.drop k)).map (k + ·)

/-- A number of `k` bytes, and then a format that depends on it. -/
def word (k : ℕ) (l : ℕ → Layout) : Layout := fun bs =>
  (skip k).seq (l (bigEndian (bs.take k))) bs

/-- Several formats in a row. -/
def all : List Layout → Layout
  | [] => none
  | l :: ls => l.seq (all ls)

/-- A format that is there under a condition. -/
def when (b : Bool) (l : Layout) : Layout := if b then l else none

/-- A format `n` times. -/
def times (l : Layout) : ℕ → Layout
  | 0 => none
  | n + 1 => l.seq (times l n)

/-- A format whose instances all take at least one byte. -/
def Takes (l : Layout) : Prop := ∀ bs k, l bs = some k → 1 ≤ k

theorem seq_eq_some {l l' : Layout} {bs : List UInt8} {m : ℕ} :
    l.seq l' bs = some m ↔ ∃ j k, l bs = some j ∧ l' (bs.drop j) = some k ∧ m = j + k := by
  simp only [seq, Option.bind_eq_some_iff, Option.map_eq_some_iff, eq_comm (a := m)]
  constructor
  · rintro ⟨j, hj, k, hk, rfl⟩
    exact ⟨j, k, hj, hk, rfl⟩
  · rintro ⟨j, k, hj, hk, rfl⟩
    exact ⟨j, hj, k, hk, rfl⟩

theorem seq_eq_none {l l' : Layout} {bs : List UInt8} :
    l.seq l' bs = Option.none ↔
      l bs = Option.none ∨ ∃ j, l bs = some j ∧ l' (bs.drop j) = Option.none := by
  simp only [seq, Option.bind_eq_none_iff, Option.map_eq_none_iff]
  cases hl : l bs <;> simp

theorem Takes.seq {l : Layout} (h : l.Takes) (l' : Layout) : (l.seq l').Takes := by
  intro bs m hm
  obtain ⟨j, k, hj, -, rfl⟩ := seq_eq_some.mp hm
  exact Nat.le_add_right_of_le (h bs j hj)

theorem takes_skip {k : ℕ} (h : 1 ≤ k) : (skip k).Takes := by
  intro bs m hm
  rw [skip] at hm
  split at hm
  · cases hm
    exact h
  · cases hm

theorem takes_word {k : ℕ} (h : 1 ≤ k) (l : ℕ → Layout) : (word k l).Takes := by
  intro bs m hm
  exact (takes_skip h).seq _ bs m hm

theorem skip_eq_some {k m : ℕ} {bs : List UInt8} :
    skip k bs = some m ↔ k ≤ bs.length ∧ k = m := by
  rw [skip]
  split <;> simp_all

theorem times_skip (n : ℕ) : (skip 1).times n = skip n := by
  induction n with
  | zero =>
    funext bs
    rw [skip, if_pos (Nat.zero_le _)]
    rfl
  | succ n ih =>
    funext bs
    refine Option.ext fun m => ?_
    rw [times, ih, seq_eq_some, skip_eq_some]
    simp only [skip_eq_some, List.length_drop]
    constructor
    · rintro ⟨j, k, ⟨h1, rfl⟩, ⟨h2, rfl⟩, rfl⟩
      omega
    · rintro ⟨h, rfl⟩
      exact ⟨1, n, ⟨by omega, rfl⟩, ⟨by omega, rfl⟩, by omega⟩

/-- As many instances as fit take at least as many bytes. -/
theorem le_of_times {l : Layout} (h : l.Takes) {n : ℕ} {bs : List UInt8} {m : ℕ}
    (hm : l.times n bs = some m) : n ≤ m := by
  induction n generalizing bs m with
  | zero => exact Nat.zero_le m
  | succ n ih =>
    obtain ⟨j, k, hj, hk, rfl⟩ := seq_eq_some.mp hm
    have hone := h bs j hj
    have hrest := ih hk
    omega

end Layout

/-! ### Staying inside the bytes there are -/

/-- From the cursor `c` to the cursor `c'` a reader took `k` bytes, looked at no new position
from `n` on and entered no new loop of more than `n` rounds. -/
structure Inside (n k : ℕ) (c c' : Cursor) : Prop where
  pos : c'.pos = c.pos + k
  le : c.pos + k ≤ n
  seen : ∀ p ∈ c'.seen, p ∈ c.seen ∨ p < n
  trips : ∀ t ∈ c'.trips, t ∈ c.trips ∨ t ≤ n

theorem Inside.refl {n : ℕ} {c : Cursor} (h : c.pos ≤ n) : Inside n 0 c c :=
  ⟨rfl, h, fun _ hp => Or.inl hp, fun _ ht => Or.inl ht⟩

theorem Inside.trans {n j k : ℕ} {c c' c'' : Cursor} (h : Inside n j c c')
    (h' : Inside n k c' c'') : Inside n (j + k) c c'' where
  pos := by rw [h'.pos, h.pos, Nat.add_assoc]
  le := by
    have hle := h'.le
    rwa [h.pos, Nat.add_assoc] at hle
  seen := fun p hp => (h'.seen p hp).elim (h.seen p) Or.inr
  trips := fun t ht => (h'.trips t ht).elim (h.trips t) Or.inr

/-- A position from `n` on was looked at. -/
def Overrun (n : ℕ) (c : Cursor) : Prop := ∃ p ∈ c.seen, n ≤ p

/-- The reader takes what the layout says. `n` bounds the bytes there are; what memory holds
from `n` on is not known. -/
structure Follows (d : Decoder α) (l : Layout) : Prop where
  keeps : ∀ mem c p, p ∈ c.seen → p ∈ (d mem c).2.seen
  fits : ∀ mem n c k, c.pos ≤ n → n < 2 ^ 32 → l (window mem c.pos (n - c.pos)) = some k →
    Inside n k c (d mem c).2
  overruns : ∀ mem n c, c.pos ≤ n → n < 2 ^ 32 →
    l (window mem c.pos (n - c.pos)) = none → Overrun n (d mem c).2

/-- The reader takes what the layout says where there are `n` bytes. -/
structure FollowsUpTo (n : ℕ) (d : Decoder α) (l : Layout) : Prop where
  keeps : ∀ mem c p, p ∈ c.seen → p ∈ (d mem c).2.seen
  fits : ∀ mem c k, c.pos ≤ n → l (window mem c.pos (n - c.pos)) = some k →
    Inside n k c (d mem c).2
  overruns : ∀ mem c, c.pos ≤ n → l (window mem c.pos (n - c.pos)) = none →
    Overrun n (d mem c).2

theorem Follows.upTo {d : Decoder α} {l : Layout} (h : Follows d l) {n : ℕ} (hn : n < 2 ^ 32) :
    FollowsUpTo n d l where
  keeps := h.keeps
  fits := fun mem c k hc hk => h.fits mem n c k hc hn hk
  overruns := fun mem c hc hk => h.overruns mem n c hc hn hk

theorem FollowsUpTo.map {n : ℕ} {d : Decoder α} {l : Layout} (h : FollowsUpTo n d l)
    (g : α → β) : FollowsUpTo n (do let x ← d; pure (g x)) l :=
  ⟨h.keeps, h.fits, h.overruns⟩

/-- The rest is there however much of it was read before. -/
theorem FollowsUpTo.rest {γ : Type} {n : ℕ} {d : Decoder α} {l : Layout} (h : FollowsUpTo n d l)
    (g : α → List UInt8 → γ) :
    FollowsUpTo n (do let x ← d; let bs ← restUpTo n; pure (g x bs)) l where
  keeps := fun mem c p hp => List.mem_append_left _ (h.keeps mem c p hp)
  fits := fun mem c k hc hk => by
    have hin := h.fits mem c k hc hk
    refine ⟨hin.pos, hin.le, fun p hp => ?_, fun t ht => ?_⟩
    · refine (List.mem_append.mp hp).elim (hin.seen p) fun hr => Or.inr ?_
      have hr' := List.mem_range'_1.mp hr
      omega
    · refine (List.mem_append.mp ht).elim (hin.trips t) fun hr => Or.inr ?_
      rw [List.mem_singleton.mp hr]
      exact Nat.sub_le n _
  overruns := fun mem c hc hk => by
    obtain ⟨p, hp, hle⟩ := h.overruns mem c hc hk
    exact ⟨p, List.mem_append_left _ hp, hle⟩

theorem follows_pure (a : α) : Follows (pure a) Layout.none where
  keeps := fun _ _ _ hp => hp
  fits := fun mem n c k hn _ hk => by
    cases hk
    exact Inside.refl hn
  overruns := fun mem n c _ _ h => by cases h

theorem follows_fetch (k : ℕ) : Follows (fetch k) (Layout.skip k) where
  keeps := fun _ c p hp => List.mem_append_left _ hp
  fits := fun mem n c m hn hlt hm => by
    simp only [Layout.skip, length_window] at hm
    split at hm
    case isFalse => cases hm
    case isTrue hk =>
      cases hm
      refine ⟨Nat.mod_eq_of_lt (by omega), by omega, ?_, fun t ht => Or.inl ht⟩
      intro p hp
      refine (List.mem_append.mp hp).imp_right fun hr => ?_
      have hr' := List.mem_range'_1.mp hr
      omega
  overruns := fun mem n c hn _ h => by
    simp only [Layout.skip, length_window] at h
    split at h
    case isTrue => cases h
    case isFalse hk =>
      exact ⟨n, List.mem_append_right _ (List.mem_range'_1.mpr (by omega)), le_rfl⟩

theorem Follows.bind {d : Decoder α} {f : α → Decoder β} {l l' : Layout}
    (hd : Follows d l) (hf : ∀ a, Follows (f a) l') : Follows (d >>= f) (l.seq l') where
  keeps := fun mem c p hp => (hf _).keeps mem _ p (hd.keeps mem c p hp)
  fits := fun mem n c m hn hlt hm => by
    obtain ⟨j, k, hj, hk, rfl⟩ := Layout.seq_eq_some.mp hm
    have hin := hd.fits mem n c j hn hlt hj
    have hpos : n - c.pos - j = n - (d mem c).2.pos := by rw [hin.pos, Nat.sub_sub]
    rw [drop_window, hpos, ← hin.pos] at hk
    exact hin.trans ((hf _).fits mem n _ k (hin.pos ▸ hin.le) hlt hk)
  overruns := fun mem n c hn hlt h => by
    rcases Layout.seq_eq_none.mp h with h | ⟨j, hj, h⟩
    · obtain ⟨p, hp, hle⟩ := hd.overruns mem n c hn hlt h
      exact ⟨p, (hf _).keeps mem _ p hp, hle⟩
    · have hin := hd.fits mem n c j hn hlt hj
      have hpos : n - c.pos - j = n - (d mem c).2.pos := by rw [hin.pos, Nat.sub_sub]
      rw [drop_window, hpos, ← hin.pos] at h
      exact (hf _).overruns mem n _ (hin.pos ▸ hin.le) hlt h

/-- The reader's last step does not read. -/
theorem Follows.map {d : Decoder α} {l : Layout} (h : Follows d l) (g : α → β) :
    Follows (do let x ← d; pure (g x)) l :=
  ⟨h.keeps, h.fits, h.overruns⟩

theorem follows_fetchWord_skip (k : ℕ) : Follows (fetchWord k) (Layout.skip k) :=
  (follows_fetch k).map bigEndian

theorem word_window (k : ℕ) (l : ℕ → Layout) (mem : ℕ → UInt8) (p m : ℕ) :
    Layout.word k l (window mem p m) =
      (Layout.skip k).seq (l (bigEndian (window mem p k))) (window mem p m) := by
  rcases Nat.lt_or_ge m k with h | h
  · have hskip : Layout.skip k (window mem p m) = none := by
      rw [Layout.skip, length_window, if_neg (by omega)]
    rw [Layout.word, Layout.seq, Layout.seq, hskip]
    rfl
  · rw [Layout.word, take_window mem p h]

/-- A word, and what the reader does with it. -/
theorem follows_fetchWord {k : ℕ} {f : ℕ → Decoder β} {l : ℕ → Layout}
    (hf : ∀ v, v < 256 ^ k → Follows (f v) (l v)) :
    Follows (fetchWord k >>= f) (Layout.word k l) := by
  have hread : ∀ mem (c : Cursor),
      Follows (do let _ ← fetch k; f (bigEndian (window mem c.pos k)))
        ((Layout.skip k).seq (l (bigEndian (window mem c.pos k)))) := by
    intro mem c
    have hv := bigEndian_lt (window mem c.pos k)
    rw [length_window] at hv
    exact (follows_fetch k).bind (fun _ => hf _ hv)
  constructor
  · intro mem c p hp
    exact (hread mem c).keeps mem c p hp
  · intro mem n c m hn hlt hm
    rw [word_window] at hm
    exact (hread mem c).fits mem n c m hn hlt hm
  · intro mem n c hn hlt h
    rw [word_window] at h
    exact (hread mem c).overruns mem n c hn hlt h

theorem Follows.times {d : Decoder α} {l : Layout} (h : Follows d l) (n : ℕ) :
    Follows (times d n) (l.times n) := by
  induction n with
  | zero => exact follows_pure []
  | succ n ih => exact h.bind (fun a => ih.map (a :: ·))

/-- A loop whose rounds all read something goes round at most once for every byte. -/
theorem Follows.loop {d : Decoder α} {l : Layout} (h : Follows d l) (ht : l.Takes) (n : ℕ) :
    Follows (loop n d) (l.times n) where
  keeps := fun mem c p hp => (h.times n).keeps mem { c with trips := c.trips ++ [n] } p hp
  fits := fun mem m c k hm hlt hk => by
    have hin := (h.times n).fits mem m { c with trips := c.trips ++ [n] } k hm hlt hk
    refine ⟨hin.pos, hin.le, hin.seen, fun t htr => ?_⟩
    have hnk := Layout.le_of_times ht hk
    have hle : c.pos + k ≤ m := hin.le
    rcases hin.trips t htr with hmem | hlt
    · rcases List.mem_append.mp hmem with hold | hnew
      · exact Or.inl hold
      · rw [List.mem_singleton.mp hnew]
        exact Or.inr (by omega)
    · exact Or.inr hlt
  overruns := fun mem m c hm hlt hk =>
    (h.times n).overruns mem m { c with trips := c.trips ++ [n] } hm hlt hk

end OnlDaemons.Lib
