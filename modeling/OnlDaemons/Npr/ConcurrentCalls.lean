import OnlDaemons.Npr.Filters
import OnlDaemons.Npr.Sections

/-!
# Calls that overlap

The RLI sends its requests over several connections, and each is handled in a thread of its own. A
call that deletes an entry finds it in one section under `tcam_lock` and removes it, by its index, in
another. That the index is not valid any more counts as a success.

## Main definitions

- `CallPlace` — how far a call has come
- `SharedConf`, `SharedConf.step` — the configuration with the calls
- `SharedConf.StillThere` — the entry that a call found has not been removed since

## Main result

- `owned_of_stillThere` — ownership of the indices in runs in which no call removes an entry that
  another has found and is still to remove
-/

namespace OnlDaemons.Npr
open OnlDaemons.Lib OnlDaemons.Lib.RangeList

/-- What an adding call adds, if its priority is valid. -/
def Op.adding : Op → Option AddReq
  | .addRoute key mask result _ =>
    some ⟨.route, addRoutePool mask result, key, mask, id, .inl result⟩
  | .addPfilter key mask priority result _ =>
    if priority > maxPriority then none
    else some ⟨.pfilter, .pfilters priority, key, mask, pfilterWord priority result, .inl result⟩
  | .addAfilter key mask priority result _ =>
    if priority > maxPriority then none
    else some ⟨.afilter, .afilters priority, key, mask, afilterWord result, .inr result⟩
  | _ => none

/-- How the first command of the call ends, and the second one of a call that deletes. -/
def Op.exchanges : Op → Exchange × Exchange
  | .addRoute _ _ _ x | .addPfilter _ _ _ _ x | .addAfilter _ _ _ _ x => (x, x)
  | .delRoute _ query delete | .delPfilter _ query delete | .delAfilter _ query delete =>
    (query, delete)

/-- A command is executed if its exchange is done, and may be if the connection fails. -/
def Exchange.executes : Exchange → Bool → Bool
  | .done, _ => true
  | .fault, _ => false
  | .dead _, executed => executed

/-- A call that deletes goes from `found` to `removed`. It has the result word of the entry `e`;
`born` tells the entry from others that were or will be at its index. -/
inductive CallPlace where
  | idle
  | taken (a : AddReq) (i j : ℕ)
  | written (a : AddReq) (i j : ℕ)
  | found (d : Db) (e : TcamEntry d) (born : ℕ)
  | read (d : Db) (e : TcamEntry d) (born i : ℕ)
  | removed (d : Db) (e : TcamEntry d) (i : ℕ)
  | returned
  | threw (text : String)

/-- The TCAM and SRAM indices that the call alone knows of. -/
def CallPlace.holds : CallPlace → Option (Db × ℕ × ℕ)
  | taken a i j | written a i j => some (a.d,i,j)
  | removed d e i => some (d,i,sramAddr2index (sramAddr e.result))
  | _ => none

/-- The configuration and the calls. `born` counts the entries that have been installed at an index. -/
structure SharedConf (T : Type) where
  conf : Configuration
  born : Db → ℕ → ℕ := fun _ _ => 0
  place : T → CallPlace := fun _ => .idle

/-- Each section of a call. A command to the TCAM daemon whose exchange fails may have been executed
or not. -/
inductive CallAct (T : Type) where
  | refuse (t : T)
  | take (t : T)
  | write (t : T)
  | install (t : T) (executed : Bool)
  | query (t : T)
  | read (t : T)
  | remove (t : T) (executed : Bool)
  | giveBack (t : T)
deriving DecidableEq, Repr

namespace SharedConf

variable {T : Type} [DecidableEq T] (sm : SearchMachine) (call : T → Op)

def set (s : SharedConf T) (t : T) (c : Configuration) (p : CallPlace) : SharedConf T :=
  { s with conf := c, place := Function.update s.place t p }

/-- `write_fltr` refuses an index that is in use. -/
def install (s : SharedConf T) (a : AddReq) (i j : ℕ) : SharedConf T :=
  if (s.conf.db a.d).any fun e => e.index = i then s
  else { s with
    conf := installEntry a i j s.conf
    born := Function.update s.born a.d (Function.update (s.born a.d) i (s.born a.d i + 1)) }

def step (s : SharedConf T) : CallAct T → Option (SharedConf T)
  | .refuse t =>
    match s.place t, (call t).adding, (call t).query with
    | .idle, none, none => some (s.set t s.conf (.threw "invalid priority"))
    | _, _, _ => none
  | .take t =>
    match s.place t, (call t).adding with
    | .idle, some a =>
      match takeIndices a.pool s.conf with
      | (.error text, c) => some (s.set t c (.threw text))
      | (.ok (i,j), c) => some (s.set t c (.taken a i j))
    | _, _ => none
  | .write t =>
    match s.place t with
    | .taken a i j => some (s.set t (writeResult a.result i j s.conf) (.written a i j))
    | _ => none
  | .install t executed =>
    match s.place t with
    | .written a i j =>
      match (call t).exchanges.1 with
      | .dead text =>
        let u := if Exchange.executes (.dead text) executed then s.install a i j else s
        some (u.set t u.conf (.threw text))
      | .fault => some (s.set t s.conf (.threw ("adding the " ++ a.d.what ++ " failed!")))
      | .done =>
        if (s.conf.db a.d).any fun e => e.index = i then
          some (s.set t s.conf (.threw ("adding the " ++ a.d.what ++ " failed!")))
        else
          let u := s.install a i j
          some (u.set t u.conf .returned)
    | _ => none
  | .query t =>
    match s.place t, (call t).query with
    | .idle, some ⟨d,key⟩ =>
      match (call t).exchanges.1 with
      | .dead text => some (s.set t s.conf (.threw text))
      | .fault => some (s.set t s.conf (.threw "response from tcamd too small"))
      | .done =>
        match sm.lookupFltr d (s.conf.db d) key with
        | none => some (s.set t s.conf (.threw "response from tcamd too small"))
        | some result =>
          -- the entry that the result word is from
          match (s.conf.db d).find? fun e => e.result = result with
          | none => none
          | some e => some (s.set t s.conf (.found d e (s.born d e.index)))
    | _, _ => none
  | .read t =>
    match s.place t with
    | .found d e born =>
      some (s.set t s.conf (.read d e born (s.conf.sram (sramAddr e.result)).index))
    | _ => none
  | .remove t executed =>
    match s.place t with
    | .read d e _ i =>
      match (call t).exchanges.2 with
      | .dead text =>
        let c := if Exchange.executes (.dead text) executed then removeIndex d i s.conf else s.conf
        some (s.set t c (.threw text))
      | .fault => some (s.set t s.conf (.threw ("deleting the " ++ d.what ++ " failed!")))
      | .done => some (s.set t (removeIndex d i s.conf) (.removed d e i))
    | _ => none
  | .giveBack t =>
    match s.place t with
    | .removed d e i =>
      match giveBack (delPool d i) i (sramAddr e.result) s.conf with
      | (.error text, c) => some (s.set t c (.threw text))
      | (.ok (), c) => some (s.set t c .returned)
    | _ => none

/-- No index is on a free list and used by an installed entry. -/
def FreeOrUsed (s : SharedConf T) : Prop :=
  ∀ d, ∀ e ∈ s.conf.db d, (∀ p : Pool, p.db = d → ¬Covers (s.conf.free p) e.index) ∧
    ¬Covers s.conf.sramFreeList (sramAddr2index (sramAddr e.result))

/-- The entry that a query found is still installed. -/
def StillThere (s : SharedConf T) (d : Db) (e : TcamEntry d) (born : ℕ) : Prop :=
  e ∈ s.conf.db d ∧ s.born d e.index = born

/-- An index that is given back is on no list, and a delete removes the entry that its own query
found and no other. -/
def Careful (s : SharedConf T) (a : CallAct T) (u : SharedConf T) : Prop :=
  match a with
  | .giveBack t => ∀ d e i, s.place t = .removed d e i →
      (∀ p : Pool, p.db = d → ¬Covers (s.conf.free p) i) ∧
      ¬Covers s.conf.sramFreeList (sramAddr2index (sramAddr e.result))
  | .remove t _ => ∀ d e born i, s.place t = .read d e born i →
      ∀ d', ∀ x ∈ s.conf.db d', x ∉ u.conf.db d' → ∃ h : d' = d, h ▸ x = e ∧ s.StillThere d e born
  | _ => ∀ d', ∀ x ∈ s.conf.db d', x ∈ u.conf.db d'

/-- When a delete is executed, the entry that the query found has not been removed since. -/
def InTime (s : SharedConf T) : CallAct T → Prop
  | .remove t executed => ∀ d e born i, s.place t = .read d e born i →
      (call t).exchanges.2.executes executed → s.StillThere d e born
  | _ => True

/-! ### The invariant -/

structure Inv (s : SharedConf T) : Prop where
  owned : Owned s.conf
  adding : ∀ t a i j, s.place t = .taken a i j ∨ s.place t = .written a i j →
    a.pool.db = a.d ∧ KeepsAddr a.word
  holds : ∀ t d i j, (s.place t).holds = some (d,i,j) → Reserved s.conf d i j
  apart : ∀ t t' d i j d' i' j', t ≠ t' → (s.place t).holds = some (d,i,j) →
    (s.place t').holds = some (d',i',j') → (d = d' → i ≠ i') ∧ j ≠ j'
  written : ∀ t a i j, s.place t = .written a i j → (s.conf.sram (sramIndex2addr j)).index = i
  found : ∀ t d e born, s.place t = .found d e born → born ≤ s.born d e.index
  read : ∀ t d e born i, s.place t = .read d e born i → born ≤ s.born d e.index ∧
    (s.StillThere d e born → i = e.index)

variable {sm call} {s u : SharedConf T} {t : T} {c : Configuration} {p : CallPlace}

omit [DecidableEq T] in
theorem Inv.freeOrUsed (h : s.Inv) : s.FreeOrUsed := by
  intro d e he
  obtain ⟨j,-,hj,hc⟩ := h.owned.sramUsed d e he
  refine ⟨fun p hp => h.owned.used d e he p hp,?_⟩
  rwa [hj,sramAddr2index_sramIndex2addr]

@[simp] theorem set_self : (s.set t c p).place t = p := Function.update_self ..

@[simp] theorem set_conf : (s.set t c p).conf = c := rfl

/-- One call goes on: what it holds then is reserved and nobody else's, what the others hold stays
reserved, and no entry comes back. -/
theorem Inv.move (h : s.Inv) (hplace : u.place = Function.update s.place t p)
    (howned : Owned u.conf)
    (hadding : ∀ a i j, p = .taken a i j ∨ p = .written a i j → a.pool.db = a.d ∧ KeepsAddr a.word)
    (hself : ∀ d i j, p.holds = some (d,i,j) → Reserved u.conf d i j)
    (hothers : ∀ t', t' ≠ t → ∀ d i j, (s.place t').holds = some (d,i,j) → Reserved u.conf d i j)
    (hapart : ∀ d i j, p.holds = some (d,i,j) → ∀ t', t' ≠ t → ∀ d' i' j',
      (s.place t').holds = some (d',i',j') → (d = d' → i ≠ i') ∧ j ≠ j')
    (hwritten : ∀ a i j, p = .written a i j → (u.conf.sram (sramIndex2addr j)).index = i)
    (hsram : ∀ t', t' ≠ t → ∀ a i j, s.place t' = .written a i j →
      (u.conf.sram (sramIndex2addr j)).index = (s.conf.sram (sramIndex2addr j)).index)
    (hborn : ∀ d i, s.born d i ≤ u.born d i)
    (hstill : ∀ d (e : TcamEntry d) born, born ≤ s.born d e.index → u.StillThere d e born →
      s.StillThere d e born)
    (hfound : ∀ d e born, p = .found d e born → born ≤ u.born d e.index)
    (hread : ∀ d e born i, p = .read d e born i → born ≤ u.born d e.index ∧
      (u.StillThere d e born → i = e.index)) : u.Inv := by
  have hpself : u.place t = p := by rw [hplace,Function.update_self]
  have hpother : ∀ t', t' ≠ t → u.place t' = s.place t' := by
    intro t' ht
    rw [hplace,Function.update_of_ne ht]
  refine ⟨howned,?_,?_,?_,?_,?_,?_⟩
  · intro t' a i j ht
    by_cases htt : t' = t
    · rw [htt,hpself] at ht
      exact hadding a i j ht
    · rw [hpother t' htt] at ht
      exact h.adding t' a i j ht
  · intro t' d i j ht
    by_cases htt : t' = t
    · rw [htt,hpself] at ht
      exact hself d i j ht
    · rw [hpother t' htt] at ht
      exact hothers t' htt d i j ht
  · intro t1 t2 d i j d' i' j' hne h1 h2
    by_cases h1t : t1 = t
    · subst h1t
      rw [hpself] at h1
      rw [hpother t2 hne.symm] at h2
      exact hapart d i j h1 t2 hne.symm d' i' j' h2
    · rw [hpother t1 h1t] at h1
      by_cases h2t : t2 = t
      · subst h2t
        rw [hpself] at h2
        obtain ⟨hi,hj⟩ := hapart d' i' j' h2 t1 h1t d i j h1
        exact ⟨fun hd => (hi hd.symm).symm,hj.symm⟩
      · rw [hpother t2 h2t] at h2
        exact h.apart t1 t2 d i j d' i' j' hne h1 h2
  · intro t' a i j ht
    by_cases htt : t' = t
    · rw [htt,hpself] at ht
      exact hwritten a i j ht
    · rw [hpother t' htt] at ht
      rw [hsram t' htt a i j ht]
      exact h.written t' a i j ht
  · intro t' d e born ht
    by_cases htt : t' = t
    · rw [htt,hpself] at ht
      exact hfound d e born ht
    · rw [hpother t' htt] at ht
      exact Nat.le_trans (h.found t' d e born ht) (hborn _ _)
  · intro t' d e born i ht
    by_cases htt : t' = t
    · rw [htt,hpself] at ht
      exact hread d e born i ht
    · rw [hpother t' htt] at ht
      obtain ⟨hle,hi⟩ := h.read t' d e born i ht
      exact ⟨Nat.le_trans hle (hborn _ _),fun hst => hi (hstill d e born hle hst)⟩

/-- A call goes on that holds nothing, and leaves the configuration as it is. -/
theorem Inv.pass (h : s.Inv) (hp : p.holds = none)
    (hfound : ∀ d e born, p = .found d e born → born ≤ s.born d e.index)
    (hread : ∀ d e born i, p = .read d e born i → born ≤ s.born d e.index ∧
      (s.StillThere d e born → i = e.index)) : (s.set t s.conf p).Inv := by
  have hno : ∀ x, p.holds ≠ some x := by
    intro x
    rw [hp]
    exact nofun
  refine h.move (t := t) (p := p) rfl h.owned ?_ (fun d i j hx => absurd hx (hno _))
    (fun t' _ d i j hx => h.holds t' d i j hx) (fun d i j hx => absurd hx (hno _)) ?_
    (fun _ _ _ _ _ _ => rfl) (fun _ _ => Nat.le_refl _) (fun _ _ _ _ => id) hfound hread
  · rintro a i j (rfl | rfl)
    · exact absurd rfl (hno _)
    · exact absurd rfl (hno _)
  · rintro a i j rfl
    exact absurd rfl (hno _)

theorem adding_spec {op : Op} {a : AddReq} (h : op.adding = some a) :
    a.pool.db = a.d ∧ KeepsAddr a.word := by
  cases op with
  | addRoute key mask result x =>
    cases h
    refine ⟨?_,keepsAddr_id⟩
    show (addRoutePool mask result).db = .route
    unfold addRoutePool
    split <;> rfl
  | addPfilter key mask priority result x =>
    simp only [Op.adding] at h
    split at h <;> cases h
    exact ⟨rfl,keepsAddr_pfilterWord priority result⟩
  | addAfilter key mask priority result x =>
    simp only [Op.adding] at h
    split at h <;> cases h
    exact ⟨rfl,keepsAddr_afilterWord result⟩
  | delRoute key query delete => cases h
  | delPfilter key query delete => cases h
  | delAfilter key query delete => cases h

theorem Inv.take {a : AddReq} {r : Except String (ℕ × ℕ)} (h : s.Inv)
    (ha : a.pool.db = a.d ∧ KeepsAddr a.word) (hr : takeIndices a.pool s.conf = (r,c))
    (hp : (∃ text, p = .threw text) ∨ ∃ i j, r = .ok (i,j) ∧ p = .taken a i j) :
    (s.set t c p).Inv := by
  obtain ⟨hsram,hdb,hord,hsord,hsub,hssub,hok⟩ := takeIndices_spec h.owned r hr
  have hres : ∀ {d i j}, Reserved s.conf d i j → Reserved c d i j :=
    fun hr => hr.mono hsub hssub fun d e he => by rwa [hdb] at he
  have htaken : ∀ d i j, p.holds = some (d,i,j) → d = a.d ∧ r = .ok (i,j) := by
    intro d i j hx
    rcases hp with ⟨text,rfl⟩ | ⟨i',j',hr,rfl⟩
    · cases hx
    · cases hx
      exact ⟨rfl,hr⟩
  refine h.move (t := t) (p := p) rfl (h.owned.shrink hsram hdb hord hsord hsub hssub) ?_ ?_
    (fun t' _ d i j hx => hres (h.holds t' d i j hx)) ?_ ?_ (fun _ _ _ _ _ _ => by
      show (c.sram _).index = _
      rw [hsram])
    (fun _ _ => Nat.le_refl _) ?_ ?_ ?_
  · rintro a' i j hx
    rcases hp with ⟨text,rfl⟩ | ⟨i',j',hr,rfl⟩
    · rcases hx with hx | hx <;> cases hx
    · rcases hx with hx | hx <;> cases hx
      exact ha
  · intro d i j hx
    obtain ⟨rfl,rfl⟩ := htaken d i j hx
    exact h.owned.take ha.1 hr
  · intro d i j hx t' _ d' i' j' hx'
    obtain ⟨rfl,rfl⟩ := htaken d i j hx
    obtain ⟨hi,-,hj,-⟩ := hok i j rfl
    have hr' := h.holds t' d' i' j' hx'
    refine ⟨fun hd hii => hr'.free a.pool (ha.1.trans hd) (hii ▸ hi),fun hjj => ?_⟩
    exact hr'.sramFree (hjj ▸ hj)
  · rintro a' i j rfl
    rcases hp with ⟨text,hx⟩ | ⟨i',j',-,hx⟩ <;> cases hx
  · intro d e born _ hst
    have he : e ∈ c.db d := hst.1
    rw [hdb] at he
    exact ⟨he,hst.2⟩
  · rintro d e born rfl
    rcases hp with ⟨text,hx⟩ | ⟨i',j',-,hx⟩ <;> cases hx
  · rintro d e born i rfl
    rcases hp with ⟨text,hx⟩ | ⟨i',j',-,hx⟩ <;> cases hx

theorem Inv.write {a : AddReq} {i j : ℕ} (h : s.Inv) (ht : s.place t = .taken a i j) :
    (s.set t (writeResult a.result i j s.conf) (.written a i j)).Inv := by
  have hholds : (s.place t).holds = some (a.d,i,j) := by rw [ht]; rfl
  have hr := h.holds t a.d i j hholds
  have hres : ∀ {d i' j'}, Reserved s.conf d i' j' →
      Reserved (writeResult a.result i j s.conf) d i' j' :=
    fun hr => hr.mono (fun _ _ => id) (fun _ => id) (fun _ _ => id)
  refine h.move (t := t) (p := .written a i j) rfl (h.owned.writeResult hr a.result i) ?_ ?_
    (fun t' _ d i' j' hx => hres (h.holds t' d i' j' hx)) ?_ ?_ ?_ (fun _ _ => Nat.le_refl _)
    (fun _ _ _ _ => id) (fun _ _ _ hx => by cases hx) (fun _ _ _ _ hx => by cases hx)
  · rintro a' i' j' (hx | hx) <;> cases hx
    exact h.adding t a i j (.inl ht)
  · intro d i' j' hx
    cases hx
    exact hres hr
  · intro d i1 j1 hx t' htt d' i' j' hx'
    cases hx
    exact h.apart t t' a.d i j d' i' j' (Ne.symm htt) hholds hx'
  · rintro a' i' j' hx
    cases hx
    show (Function.update s.conf.sram _ _ _ : SramWords).index = i
    rw [Function.update_self]
  · intro t' htt a' i' j' hx
    have hx' : (s.place t').holds = some (a'.d,i',j') := by rw [hx]; rfl
    have hj := (h.apart t t' a.d i j a'.d i' j' (Ne.symm htt) hholds hx').2
    show (Function.update s.conf.sram _ _ _ : SramWords).index = _
    rw [Function.update_of_ne fun he => hj (sramIndex2addr_injective he).symm]

theorem Inv.install {a : AddReq} {i j : ℕ} (h : s.Inv) (ht : s.place t = .written a i j)
    (hp : p.holds = none) (hfound : ∀ d e born, p ≠ .found d e born)
    (hread : ∀ d e born i, p ≠ .read d e born i) :
    ((s.install a i j).set t (s.install a i j).conf p).Inv := by
  have hholds : (s.place t).holds = some (a.d,i,j) := by rw [ht]; rfl
  have hr := h.holds t a.d i j hholds
  obtain ⟨hd,hk⟩ := h.adding t a i j (.inr ht)
  have hno : ∀ x, p.holds ≠ some x := by
    intro x
    rw [hp]
    exact nofun
  have hfree : ((s.conf.db a.d).any fun e => e.index = i) = false := by
    rw [List.any_eq_false]
    exact fun e he => by simpa using hr.used e he
  have hu : s.install a i j = { s with
      conf := installEntry a i j s.conf
      born := Function.update s.born a.d (Function.update (s.born a.d) i (s.born a.d i + 1)) } := by
    unfold SharedConf.install
    rw [hfree]
    rfl
  rw [hu]
  refine h.move (t := t) (p := p) rfl
    (h.owned.insert hr hd hk (h.written t a i j ht)) ?_ (fun d i j hx => absurd hx (hno _)) ?_
    (fun d i j hx => absurd hx (hno _)) ?_ (fun _ _ _ _ _ _ => rfl) ?_ ?_
    (fun d e born hx => absurd hx (hfound d e born)) (fun d e born i hx => absurd hx (hread d e born i))
  · rintro a' i' j' (rfl | rfl)
    · exact absurd rfl (hno _)
    · exact absurd rfl (hno _)
  · intro t' htt d i' j' hx
    obtain ⟨hi,hj⟩ := h.apart t t' a.d i j d i' j' (Ne.symm htt) hholds hx
    exact (h.holds t' d i' j' hx).insert hr hk (fun hdd => (hi hdd.symm).symm) hj.symm
  · rintro a' i' j' rfl
    exact absurd rfl (hno _)
  · intro d i'
    show _ ≤ Function.update s.born a.d _ d i'
    by_cases hdd : d = a.d
    · subst hdd
      rw [Function.update_self]
      by_cases hii : i' = i
      · rw [hii,Function.update_self]
        exact Nat.le_succ _
      · rw [Function.update_of_ne hii]
    · rw [Function.update_of_ne hdd]
  · intro d e born hle hst
    obtain ⟨hin,hb⟩ := hst
    change Function.update s.born a.d _ d e.index = born at hb
    rcases mem_installEntry hin with ⟨rfl,rfl⟩ | hin
    · -- the entry that was found is another one
      rw [Function.update_self] at hb
      have hbi : Function.update (s.born a.d) i (s.born a.d i + 1) i = born := hb
      rw [Function.update_self] at hbi
      have hle' : born ≤ s.born a.d i := hle
      omega
    · refine ⟨hin,?_⟩
      rw [← hb]
      by_cases hdd : d = a.d
      · subst hdd
        rw [Function.update_self,Function.update_of_ne (hr.used e hin)]
      · rw [Function.update_of_ne hdd]

theorem Inv.remove {d : Db} {e : TcamEntry d} {born i : ℕ} (h : s.Inv)
    (ht : s.place t = .read d e born i) (hst : s.StillThere d e born)
    (hp : (∃ text, p = .threw text) ∨ p = .removed d e i) :
    (s.set t (removeIndex d i s.conf) p).Inv := by
  have hi : i = e.index := (h.read t d e born i ht).2 hst
  obtain ⟨k,-,hka,-⟩ := h.owned.sramUsed d e hst.1
  have hres : ∀ {d' i' j'}, Reserved s.conf d' i' j' → Reserved (removeIndex d i s.conf) d' i' j' :=
    fun hr => hr.mono (fun _ _ => id) (fun _ => id) (fun _ _ he => (mem_removeIndex he).1)
  have hholds : ∀ d' i' j', p.holds = some (d',i',j') →
      d' = d ∧ i' = e.index ∧ j' = sramAddr2index (sramAddr e.result) := by
    intro d' i' j' hx
    rcases hp with ⟨text,rfl⟩ | rfl
    · cases hx
    · cases hx
      exact ⟨rfl,hi,rfl⟩
  refine h.move (t := t) (p := p) rfl (h.owned.remove d i) ?_ ?_
    (fun t' _ d' i' j' hx => hres (h.holds t' d' i' j' hx)) ?_ ?_ (fun _ _ _ _ _ _ => rfl)
    (fun _ _ => Nat.le_refl _) (fun d' e' b _ hst' => ⟨(mem_removeIndex hst'.1).1,hst'.2⟩) ?_ ?_
  · rintro a' i' j' hx
    rcases hp with ⟨text,rfl⟩ | rfl <;> rcases hx with hx | hx <;> cases hx
  · intro d' i' j' hx
    obtain ⟨rfl,rfl,rfl⟩ := hholds d' i' j' hx
    rw [hi]
    exact h.owned.reserved_removed hst.1
  · intro d' i' j' hx t' _ d2 i2 j2 hx2
    obtain ⟨rfl,rfl,rfl⟩ := hholds d' i' j' hx
    have hr := h.holds t' d2 i2 j2 hx2
    refine ⟨?_,fun hj => ?_⟩
    · rintro rfl
      exact hr.used e hst.1
    · rw [hka,sramAddr2index_sramIndex2addr] at hj
      exact hr.sramUsed d' e hst.1 (hj ▸ hka)
  · rintro a' i' j' rfl
    rcases hp with ⟨text,hx⟩ | hx <;> cases hx
  · rintro d' e' b rfl
    rcases hp with ⟨text,hx⟩ | hx <;> cases hx
  · rintro d' e' b i' rfl
    rcases hp with ⟨text,hx⟩ | hx <;> cases hx

theorem Inv.giveBack {d : Db} {e : TcamEntry d} {i : ℕ} {r : Except String Unit} (h : s.Inv)
    (ht : s.place t = .removed d e i)
    (hr : giveBack (delPool d i) i (sramAddr e.result) s.conf = (r,c))
    (hp : (∃ text, p = .threw text) ∨ p = .returned) : (s.set t c p).Inv := by
  have hholds : (s.place t).holds = some (d,i,sramAddr2index (sramAddr e.result)) := by
    rw [ht]
    rfl
  have hres := h.holds t _ _ _ hholds
  have hd := delPool_db d i
  have howned := h.owned.freeIndices hres hd
  have hno : ∀ x, p.holds ≠ some x := by
    intro x hx
    rcases hp with ⟨text,rfl⟩ | rfl <;> cases hx
  -- the SRAM map is another matter
  obtain ⟨m,rfl⟩ : ∃ m, c = { freeIndices (delPool d i) i (sramAddr2index (sramAddr e.result))
      s.conf with srmap := m } := by
    unfold Npr.giveBack at hr
    simp only at hr
    split at hr
    · cases hr
      exact ⟨_,rfl⟩
    · cases hr
      exact ⟨_,rfl⟩
  refine h.move (t := t) (p := p) rfl ⟨howned.home,howned.ordered,howned.sramOrdered,howned.sramWithin,
    howned.disjoint,howned.used,howned.nodup,howned.sramUsed,howned.sramIndex,howned.sramOne⟩ ?_
    (fun _ _ _ hx => absurd hx (hno _)) ?_ (fun _ _ _ hx => absurd hx (hno _)) ?_
    (fun _ _ _ _ _ _ => rfl) (fun _ _ => Nat.le_refl _) (fun _ _ _ _ => id) ?_ ?_
  · rintro a' i' j' hx
    rcases hp with ⟨text,rfl⟩ | rfl <;> rcases hx with hx | hx <;> cases hx
  · intro t' htt d' i' j' hx
    obtain ⟨hi,hj⟩ := h.apart t t' _ _ _ d' i' j' (Ne.symm htt) hholds hx
    have := (h.holds t' d' i' j' hx).freeIndices h.owned hres hd (fun hdd => (hi hdd.symm).symm)
      hj.symm
    exact ⟨this.free,this.used,this.range,this.sramFree,this.sramUsed⟩
  · rintro a' i' j' rfl
    rcases hp with ⟨text,hx⟩ | hx <;> cases hx
  · rintro d' e' b rfl
    rcases hp with ⟨text,hx⟩ | hx <;> cases hx
  · rintro d' e' b i' rfl
    rcases hp with ⟨text,hx⟩ | hx <;> cases hx

/-- A call throws, and the configuration is as it was. -/
theorem Inv.throw (h : s.Inv) (text : String) : (s.set t s.conf (.threw text)).Inv :=
  h.pass rfl (fun _ _ _ hx => by cases hx) (fun _ _ _ _ hx => by cases hx)

theorem inv_of_inTime {a : CallAct T} (h : s.Inv) (hstep : s.step sm call a = some u)
    (hc : s.InTime call a) : u.Inv := by
  cases a with
  | refuse t =>
    simp only [step] at hstep
    split at hstep <;> cases hstep
    exact h.throw _
  | take t =>
    simp only [step] at hstep
    split at hstep
    · next a hidle ha =>
      split at hstep
      · next text c hr =>
        cases hstep
        exact h.take (adding_spec ha) hr (.inl ⟨text,rfl⟩)
      · next i j c hr =>
        cases hstep
        exact h.take (adding_spec ha) hr (.inr ⟨i,j,rfl,rfl⟩)
    · cases hstep
  | write t =>
    simp only [step] at hstep
    split at hstep <;> cases hstep
    exact h.write ‹_›
  | install t executed =>
    simp only [step] at hstep
    split at hstep
    · next a i j ht =>
      split at hstep
      · cases hstep
        split
        · exact h.install ht rfl (fun _ _ _ => nofun) (fun _ _ _ _ => nofun)
        · exact h.throw _
      · cases hstep
        exact h.throw _
      · split at hstep <;> cases hstep
        · exact h.throw _
        · exact h.install ht rfl (fun _ _ _ => nofun) (fun _ _ _ _ => nofun)
    · cases hstep
  | query t =>
    simp only [step] at hstep
    split at hstep
    · split at hstep
      · cases hstep
        exact h.throw _
      · cases hstep
        exact h.throw _
      · split at hstep
        · cases hstep
          exact h.throw _
        · split at hstep
          · cases hstep
          · cases hstep
            refine h.pass rfl (fun d e born hx => ?_) (fun _ _ _ _ hx => by cases hx)
            cases hx
            exact Nat.le_refl _
    · cases hstep
  | read t =>
    simp only [step] at hstep
    split at hstep
    · next d e born ht =>
      cases hstep
      refine h.pass rfl (fun _ _ _ hx => by cases hx) fun d' e' born' i hx => ?_
      cases hx
      exact ⟨h.found t d e born ht,fun hst => h.owned.sramIndex d e hst.1⟩
    · cases hstep
  | remove t executed =>
    simp only [step] at hstep
    split at hstep
    · next d e born i ht =>
      have hst := hc d e born i ht
      split at hstep
      · next text hx =>
        rw [hx] at hst
        cases hstep
        split
        · next hex => exact h.remove ht (hst hex) (.inl ⟨text,rfl⟩)
        · exact h.throw _
      · cases hstep
        exact h.throw _
      · next hx =>
        rw [hx] at hst
        cases hstep
        exact h.remove ht (hst rfl) (.inr rfl)
    · cases hstep
  | giveBack t =>
    simp only [step] at hstep
    split at hstep
    · next d e i ht =>
      split at hstep
      · next text c hr =>
        cases hstep
        exact h.giveBack ht hr (.inl ⟨text,rfl⟩)
      · next c hr =>
        cases hstep
        exact h.giveBack ht hr (.inr rfl)
    · cases hstep

/-- Only the removal of the entry at an index takes an entry away. -/
theorem mem_of_mem_removeIndex {d d' : Db} {i : ℕ} {x : TcamEntry d'} (hx : x ∈ c.db d')
    (hno : x ∉ (removeIndex d i c).db d') : d' = d ∧ x.index = i := by
  by_cases hd : d' = d
  · subst hd
    simp only [removeIndex,Configuration.setDb,Function.update_self,List.mem_filter,
      decide_eq_true_eq,not_and,not_not] at hno
    exact ⟨rfl,hno hx⟩
  · simp only [removeIndex,Configuration.setDb,Function.update_of_ne hd] at hno
    exact absurd hx hno

theorem takeIndices_db {pool : Pool} {r : Except String (ℕ × ℕ)} {c c' : Configuration}
    (h : takeIndices pool c = (r,c')) : c'.db = c.db := by
  unfold takeIndices at h
  split at h
  · cases h
    rfl
  · simp only at h
    split at h <;> cases h <;> rfl

omit [DecidableEq T] in
theorem mem_install {a : AddReq} {i j : ℕ} {d : Db} {x : TcamEntry d} (hx : x ∈ s.conf.db d) :
    x ∈ (s.install a i j).conf.db d := by
  unfold SharedConf.install
  split
  · exact hx
  · show x ∈ Function.update s.conf.db a.d _ d
    by_cases hd : d = a.d
    · subst hd
      rw [Function.update_self]
      exact List.mem_cons_of_mem _ hx
    · rwa [Function.update_of_ne hd]

theorem careful_of_inTime {a : CallAct T} (h : s.Inv) (hstep : s.step sm call a = some u)
    (hc : s.InTime call a) : s.Careful a u := by
  cases a with
  | giveBack t =>
    intro d e i ht
    have hres := h.holds t d i _ (by rw [ht]; rfl)
    exact ⟨hres.free,hres.sramFree⟩
  | remove t executed =>
    intro d e born i ht d' x hx hno
    have hst := hc d e born i ht
    simp only [step,ht] at hstep
    have hdone : (call t).exchanges.2.executes executed →
        x ∉ (removeIndex d i s.conf).db d' → ∃ hd : d' = d, hd ▸ x = e ∧ s.StillThere d e born := by
      intro hex hno
      obtain ⟨rfl,hi⟩ := mem_of_mem_removeIndex hx hno
      have heq := (h.read t d' e born i ht).2 (hst hex)
      exact ⟨rfl,h.owned.eq_of_index hx (hst hex).1 (hi.trans heq),hst hex⟩
    split at hstep
    · next text hxch =>
      cases hstep
      rw [hxch] at hdone
      split at hno
      · next hex => exact hdone hex hno
      · exact absurd hx hno
    · cases hstep
      exact absurd hx hno
    · next hxch =>
      cases hstep
      rw [hxch] at hdone
      exact hdone rfl hno
  | refuse t =>
    intro d x hx
    simp only [step] at hstep
    split at hstep <;> cases hstep
    exact hx
  | take t =>
    intro d x hx
    simp only [step] at hstep
    split at hstep
    · split at hstep
      · next hr =>
        cases hstep
        rwa [set_conf,takeIndices_db hr]
      · next hr =>
        cases hstep
        rwa [set_conf,takeIndices_db hr]
    · cases hstep
  | write t =>
    intro d x hx
    simp only [step] at hstep
    split at hstep <;> cases hstep
    exact hx
  | install t executed =>
    intro d x hx
    simp only [step] at hstep
    split at hstep
    · split at hstep
      · cases hstep
        split
        · exact mem_install hx
        · exact hx
      · cases hstep
        exact hx
      · split at hstep <;> cases hstep
        · exact hx
        · exact mem_install hx
    · cases hstep
  | query t =>
    intro d x hx
    simp only [step] at hstep
    split at hstep
    · split at hstep
      · cases hstep
        exact hx
      · cases hstep
        exact hx
      · split at hstep
        · cases hstep
          exact hx
        · split at hstep <;> cases hstep
          exact hx
    · cases hstep
  | read t =>
    intro d x hx
    simp only [step] at hstep
    split at hstep <;> cases hstep
    exact hx

/-- Any number of calls, in any order of their sections and with any answers of the TCAM daemon: no
index is free and used, none is given back while it is on a list, and a delete removes only the entry
that its own query found, in a run in which no delete is executed after its entry was removed. -/
theorem owned_of_stillThere (sm : SearchMachine) (call : T → Op) (srmap : List (ℕ × ℕ))
    (nextId : ℕ) (sram : ℕ → SramWords) (c : Configuration)
    (tr : List (CallAct T × SharedConf T)) (hs : startRouter srmap nextId sram = some c)
    (hr : IsRun (fun s a u => s.step sm call a = some u) { conf := c } tr)
    (hc : EveryStep (fun s a _ => s.InTime call a) { conf := c } tr) :
    EveryState FreeOrUsed { conf := c } tr ∧ EveryStep Careful { conf := c } tr := by
  have hstart : ({ conf := c } : SharedConf T).Inv :=
    ⟨owned_startRouter sm hs,fun _ _ _ _ hx => (by rcases hx with hx | hx <;> cases hx),
      fun _ _ _ _ hx => (by cases hx),fun _ _ _ _ _ _ _ _ _ hx => (by cases hx),
      fun _ _ _ _ hx => (by cases hx),fun _ _ _ _ hx => (by cases hx),
      fun _ _ _ _ _ hx => (by cases hx)⟩
  refine ⟨(hr.everyState (fun _ _ _ h hs hc => inv_of_inTime h hs hc) hstart hc).mono
    fun _ h => h.freeOrUsed,?_⟩
  exact hr.everyStep (fun _ _ _ h hs hc => inv_of_inTime h hs hc)
    (fun _ _ _ h hs hc => careful_of_inTime h hs hc) hstart hc

/-- A call that has just read the index of the entry it found is in time. -/
theorem stillThere_of_alone (sm : SearchMachine) (call : T → Op) (s : SharedConf T)
    {s₁ s₂ : SharedConf T} (hq : s.step sm call (.query t) = some s₁)
    (hr : s₁.step sm call (.read t) = some s₂) {d : Db} {e : TcamEntry d} {born i : ℕ}
    (hp : s₂.place t = .read d e born i) : s₂.StillThere d e born := by
  simp only [step] at hr
  split at hr
  · next d' e' born' ht =>
    cases hr
    rw [set_self] at hp
    cases hp
    simp only [step] at hq
    split at hq
    · split at hq
      · cases hq
        rw [set_self] at ht
        cases ht
      · cases hq
        rw [set_self] at ht
        cases ht
      · split at hq
        · cases hq
          rw [set_self] at ht
          cases ht
        · split at hq
          · cases hq
          · next hf =>
            cases hq
            rw [set_self] at ht
            cases ht
            exact ⟨List.mem_of_find?_eq_some hf,rfl⟩
    · cases hq
  · cases hr

/-- The call 0 adds a pfilter, and the others delete it. -/
def addThenDelete : ℕ → Op
  | 0 => .addPfilter tcpFilter tcpFilter 0 defFilterResult .done
  | _ => .delPfilter tcpFilter .done .done

def addTcpFilter : List (CallAct ℕ) := [.take 0,.write 0,.install 0 true]

/-- The router is started, and no call made. -/
def started : SharedConf ℕ :=
  { conf := (startRouter [] 0 blankSram).getD (startLists [] 0 blankSram) }

theorem startRouter_started : startRouter [] 0 blankSram = some started.conf := rfl

/-- One call after the other. -/
theorem addDelete_owned :
    let tr := runOf (step tcam addThenDelete) started
      (addTcpFilter ++ [.query 1,.read 1,.remove 1 true,.giveBack 1])
    EveryState FreeOrUsed started tr ∧ EveryStep Careful started tr := by
  refine owned_of_stillThere tcam addThenDelete [] 0 blankSram started.conf _ startRouter_started
    (isRun_runOf _ _ _) ?_
  refine ⟨trivial,trivial,trivial,trivial,trivial,fun d e born i hp _ => ?_,trivial,trivial⟩
  exact stillThere_of_alone tcam addThenDelete
    (lastState started (runOf (step tcam addThenDelete) started addTcpFilter))
    (t := 1) (d := d) (e := e) (i := i) rfl rfl hp

/-- Two calls delete the same filter, and give its indices back twice. -/
theorem deleted_twice :
    ¬ ∀ (sm : SearchMachine) (call : ℕ → Op) (c : Configuration)
      (tr : List (CallAct ℕ × SharedConf ℕ)), startRouter [] 0 blankSram = some c →
      IsRun (fun s a u => s.step sm call a = some u) { conf := c } tr →
      EveryState FreeOrUsed { conf := c } tr ∧ EveryStep Careful { conf := c } tr := by
  intro h
  have hcareful := (h tcam addThenDelete started.conf _ startRouter_started
    (isRun_runOf (step tcam addThenDelete) started (addTcpFilter ++
      [.query 1,.query 2,.read 1,.read 2,.remove 1 true,.remove 2 true,.giveBack 1,.giveBack 2]))).2
  obtain ⟨-,-,-,-,-,-,-,-,-,-,hlast,-⟩ := hcareful
  have := (hlast _ _ _ rfl).2
  revert this
  decide +kernel

end SharedConf

end OnlDaemons.Npr
