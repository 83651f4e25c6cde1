import Mathlib.Data.List.Basic

/-!
# Words and symbols

A text is cut at the elements that are symbols; what stands between two of them is a word. The tokens of a text that ends
with a symbol do not depend on what follows it, so that a text that is put together piece by piece is read piece by
piece.

## Main definitions

- `Lexer` — the tokens of symbols and of words
- `Lexer.lex` — the tokens of a text
- `Lexer.Closed`, `Lexer.Open` — a piece of text with its tokens, whatever follows it or when a symbol follows it
-/

namespace OnlDaemons.Lib

variable {α τ : Type*}

/-- `symbol` gives nothing for an element that is part of a word. -/
structure Lexer (α τ : Type*) where
  symbol : α → Option (List τ)
  word : List α → List τ
  word_nil : word [] = []

namespace Lexer

variable (L : Lexer α τ)

/-- The tokens of a text that continues the word `cur`. -/
def lexFrom (cur : List α) : List α → List τ
  | [] => L.word cur
  | c :: cs =>
    match L.symbol c with
    | some ts => L.word cur ++ (ts ++ lexFrom [] cs)
    | none => lexFrom (cur ++ [c]) cs

def lex (t : List α) : List τ := L.lexFrom [] t

def Closed (t : List α) (ts : List τ) : Prop := ∀ rest, L.lex (t ++ rest) = ts ++ L.lex rest

def Open (t : List α) (ts : List τ) : Prop :=
  ∀ c rest, (L.symbol c).isSome → L.lex (t ++ c :: rest) = ts ++ L.lex (c :: rest)

/-- The text begins with a symbol. -/
def Starts (t : List α) : Prop := ∃ c rest, t = c :: rest ∧ (L.symbol c).isSome

variable {L} {t u : List α} {ts us : List τ}

theorem lexFrom_symbol {cur : List α} {c : α} (rest : List α) (h : (L.symbol c).isSome) :
    L.lexFrom cur (c :: rest) = L.word cur ++ L.lex (c :: rest) := by
  obtain ⟨cs,hc⟩ := Option.isSome_iff_exists.1 h
  simp only [lex,lexFrom,hc,L.word_nil,List.nil_append]

theorem lexFrom_word {w : List α} (h : ∀ c ∈ w, L.symbol c = none) (cur rest : List α) :
    L.lexFrom cur (w ++ rest) = L.lexFrom (cur ++ w) rest := by
  induction w generalizing cur with
  | nil => rw [List.nil_append,List.append_nil]
  | cons c w ih =>
    have hc := h c List.mem_cons_self
    rw [List.cons_append,lexFrom,hc]
    show L.lexFrom (cur ++ [c]) (w ++ rest) = _
    rw [ih (fun c' hc' => h c' (List.mem_cons_of_mem _ hc')),List.append_assoc,List.singleton_append]

/-- A word of its own. -/
theorem open_word (h : ∀ c ∈ t, L.symbol c = none) : L.Open t (L.word t) := by
  intro c rest hc
  rw [lex,lexFrom_word h,List.nil_append,lexFrom_symbol rest hc]

theorem open_of_all (h : t.all fun c => (L.symbol c).isNone) : L.Open t (L.word t) :=
  open_word fun c hc => Option.isNone_iff_eq_none.1 (List.all_eq_true.1 h c hc)

theorem closed_nil : L.Closed [] [] := fun _ => rfl

theorem closed_symbol {c : α} (h : L.symbol c = some ts) : L.Closed [c] ts := by
  intro rest
  rw [List.singleton_append,lex,lexFrom,h]
  show L.word [] ++ (ts ++ L.lex rest) = _
  rw [L.word_nil,List.nil_append]

theorem Closed.append (ht : L.Closed t ts) (hu : L.Closed u us) : L.Closed (t ++ u) (ts ++ us) := by
  intro rest
  rw [List.append_assoc,ht,hu,List.append_assoc]

theorem Closed.openAppend (ht : L.Closed t ts) (hu : L.Open u us) : L.Open (t ++ u) (ts ++ us) := by
  intro c rest hc
  rw [List.append_assoc,ht,hu c rest hc,List.append_assoc]

/-- A symbol ends the word before it. -/
theorem Open.append (ht : L.Open t ts) (hstarts : L.Starts u) (hu : L.Closed u us) :
    L.Closed (t ++ u) (ts ++ us) := by
  intro rest
  obtain ⟨c,cs,rfl,hc⟩ := hstarts
  rw [List.append_assoc,List.cons_append,ht c _ hc,← List.cons_append,hu,List.append_assoc]

theorem Open.openAppend (ht : L.Open t ts) (hstarts : L.Starts u) (hu : L.Open u us) :
    L.Open (t ++ u) (ts ++ us) := by
  intro c rest hc
  obtain ⟨d,ds,rfl,hd⟩ := hstarts
  rw [List.append_assoc,List.cons_append,ht d _ hd,← List.cons_append,hu c rest hc,List.append_assoc]

theorem Closed.lex_eq (h : L.Closed t ts) : L.lex t = ts := by
  have hnil : L.lex [] = [] := L.word_nil
  have hall := h []
  rwa [hnil,List.append_nil,List.append_nil] at hall

end Lexer

end OnlDaemons.Lib
