import OnlDaemons.Nmd.SwitchCommands
import OnlDaemons.Nmd.VlanPool
import Mathlib.Data.List.Induction

/-!
# Isolation of the sessions' VLANs

`get_clear_vlan_cmd` puts a VLAN on the free list when it has made the command for its last port.
That command is executed later or not at all, and until then another session that gets the VLAN
shares it with the ports of the old one.

## Main results

- `isolated_of_orderly` — in a run of orderly steps the ports in a VLAN are always those of one
  session, and a VLAN changes hands only when every switch has been cleared of it
- `not_isolated` — a run in which two sessions share a VLAN
-/

namespace OnlDaemons.Nmd

open OnlDaemons.Lib

variable {n n' : Net} {e : Event} {s : VlanSet} {sw : String} {r v : ℕ}

/-! ### What commands do to the switches -/

def Line.added (v : ℕ) : Line → List Member
  | addVlan w ports => if w = v then ports else []
  | _ => []

/-- The ports that a command puts in the VLAN. -/
def SwitchCmd.adds (c : SwitchCmd) (v : ℕ) : List Member := c.lines.flatMap (Line.added v)

theorem mem_run {lines : List Line} {m : ℕ → List Member} {x : Member}
    (h : x ∈ lines.foldl Line.run m v) : x ∈ m v ∨ x ∈ lines.flatMap (Line.added v) := by
  induction lines generalizing m with
  | nil => exact .inl h
  | cons l lines ih =>
    rw [List.foldl_cons] at h
    rw [List.flatMap_cons,List.mem_append]
    rcases ih h with hm | hx
    · cases l with
      | removeVlan w =>
        by_cases hw : v = w
        · subst hw
          simp [Line.run] at hm
        · exact .inl (by simpa [Line.run,hw] using hm)
      | addVlan w ports =>
        by_cases hw : v = w
        · subst hw
          simp only [Line.run,Function.update_self,List.mem_append] at hm
          refine hm.imp_right fun hp => .inl ?_
          simpa [Line.added] using hp
        · exact .inl (by simpa [Line.run,hw] using hm)
      | allowNone => cases hm
    · exact .inr (.inr hx)

/-- A command that only removes leaves the other VLANs as they are. -/
theorem run_removes {lines : List Line} (h : ∀ l ∈ lines, ∃ w, l = .removeVlan w)
    (m : ℕ → List Member) (v : ℕ) :
    lines.foldl Line.run m v = if .removeVlan v ∈ lines then [] else m v := by
  induction lines generalizing m with
  | nil => rfl
  | cons l lines ih =>
    obtain ⟨w,rfl⟩ := h l List.mem_cons_self
    rw [List.foldl_cons,ih (fun l hl => h l (List.mem_cons_of_mem _ hl))]
    by_cases hv : v = w
    · subst hv
      simp [Line.run]
    · simp [Line.run,hv]

theorem adds_removes {c : SwitchCmd} (h : ∀ l ∈ c.lines, ∃ w, l = .removeVlan w) (v : ℕ) :
    c.adds v = [] := by
  rw [SwitchCmd.adds,List.flatMap_eq_nil_iff]
  intro l hl
  obtain ⟨w,rfl⟩ := h l hl
  rfl

/-- Commands other than those of a clear may fail: this is what is in the VLAN at most when the
queue has been executed. -/
def Occupied (v : ℕ) (b : Prop) : List SwitchCmd → Prop
  | [] => b
  | c :: cs => Occupied v ((b ∨ c.adds v ≠ []) ∧ ∀ r, ¬ c.Clears r v) cs

theorem Occupied.mono {a b : Prop} (hab : a → b) {cs : List SwitchCmd}
    (h : Occupied v a cs) : Occupied v b cs := by
  induction cs generalizing a b with
  | nil => exact hab h
  | cons c cs ih => exact ih (fun ha => ⟨ha.1.imp_left hab,ha.2⟩) h

theorem occupied_snoc (b : Prop) (cs : List SwitchCmd) (c : SwitchCmd) :
    Occupied v b (cs ++ [c]) ↔ (Occupied v b cs ∨ c.adds v ≠ []) ∧ ∀ r, ¬ c.Clears r v := by
  induction cs generalizing b with
  | nil => rfl
  | cons d cs ih => exact ih _

/-- Without a clear to come, what is in the VLAN or on the way to it stays. -/
theorem Occupied.of_no_clear {b : Prop} {cs : List SwitchCmd}
    (hc : ∀ c ∈ cs, ∀ r, ¬ c.Clears r v) (h : b ∨ ∃ c ∈ cs, c.adds v ≠ []) :
    Occupied v b cs := by
  induction cs generalizing b with
  | nil => exact h.elim id (fun h => absurd h.choose_spec.1 List.not_mem_nil)
  | cons c cs ih =>
    have hno := hc c List.mem_cons_self
    refine ih (fun d hd => hc d (List.mem_cons_of_mem _ hd)) ?_
    rcases h with hb | ⟨d,hd,hne⟩
    · exact .inl ⟨.inl hb,hno⟩
    · rcases List.mem_cons.mp hd with rfl | hd
      · exact .inl ⟨.inr hne,hno⟩
      · exact .inr ⟨d,hd,hne⟩

namespace Net

def Occupied (n : Net) (sw : String) (v : ℕ) : Prop :=
  Nmd.Occupied v (n.members sw v ≠ []) (n.queue sw)

/-- A port that is in the VLAN or that a command not yet executed puts there. -/
def Outstanding (n : Net) (sw : String) (v : ℕ) (m : Member) : Prop :=
  m ∈ n.members sw v ∨ ∃ c ∈ n.queue sw, m ∈ c.adds v

end Net

/-- Nothing is left of a VLAN that the queue will clear, once the queue clears it no more. -/
theorem outstanding_eq_false (ho : ¬ n.Occupied sw v)
    (hc : ∀ c ∈ n.queue sw, ∀ r, ¬ c.Clears r v) (m : Member) : ¬ n.Outstanding sw v m := by
  intro hm
  refine ho (Occupied.of_no_clear hc ?_)
  rcases hm with hm | ⟨c,hcq,hm⟩
  · exact .inl (List.ne_nil_of_mem hm)
  · exact .inr ⟨c,hcq,List.ne_nil_of_mem hm⟩

/-! ### What a clear does to the VLAN set -/

theorem switchPorts_removed (s : VlanSet) (sw : String) (v : ℕ) :
    (s.switchPorts sw v).foldl (fun ports p => ports.filter (fun q => !q.same p))
      (s.vlans v).ports = (s.vlans v).ports.filter (fun p => !(p.switchId == sw)) := by
  have h : ∀ (rm ports : List SwitchPort),
      rm.foldl (fun ports p => ports.filter (fun q => !q.same p)) ports =
        ports.filter (fun q => rm.all (fun p => !q.same p)) := by
    intro rm
    induction rm with
    | nil => simp
    | cons p rm ih =>
      intro ports
      rw [List.foldl_cons,ih,List.filter_filter]
      apply List.filter_congr
      intro q _
      rw [List.all_cons,Bool.and_comm]
  rw [h]
  apply List.filter_congr
  intro q hq
  by_cases hs : q.switchId = sw
  · -- the port is one of those removed
    have hmem : q ∈ s.switchPorts sw v := by simp [VlanSet.switchPorts,hq,hs]
    have hall : (s.switchPorts sw v).all (fun p => !q.same p) = false := by
      rw [List.all_eq_false]
      exact ⟨q,hmem,by simp [SwitchPort.same]⟩
    rw [hall]
    simp [hs]
  · have hall : (s.switchPorts sw v).all (fun p => !q.same p) = true := by
      rw [List.all_eq_true]
      intro p hp
      have hps : p.switchId = sw := by simpa using (List.mem_filter.mp hp).2
      have hne : q.switchId ≠ p.switchId := fun he => hs (he.trans hps)
      simp [SwitchPort.same,hne]
    rw [hall]
    simp [hs]

/-- What a VLAN keeps when its ports of one switch are taken off. -/
def VlanSet.otherPorts (s : VlanSet) (sw : String) (v : ℕ) : List SwitchPort :=
  (s.vlans v).ports.filter (fun p => !(p.switchId == sw))

theorem getClearVlanCmd_eq (s : VlanSet) (sw : String) (v : ℕ) :
    s.getClearVlanCmd sw v =
      if s.switchPorts sw v = [] then s
      else if s.otherPorts sw v = [] then (s.setVlan v ⟨false,[],""⟩).freeVlan v
      else s.setVlan v { s.vlans v with ports := s.otherPorts sw v } := by
  rw [VlanSet.otherPorts,← switchPorts_removed]
  rfl

/-- The loop of a clear for one switch over a list of VLANs: the VLANs of the list with ports on
the switch lose them, and are free when they have no other port. -/
structure LoopSpec (n : Net) (sw : String) (l : List ℕ) (res : VlanSet × List Line × ℕ) :
    Prop where
  only : OnlyVlans n.set res.1
  other : ∀ v, v ∉ l ∨ n.set.switchPorts sw v = [] →
    res.1.vlans v = n.set.vlans v ∧ (v ∈ res.1.freeVlans ↔ v ∈ n.set.freeVlans)
  kept : ∀ v ∈ l, n.set.switchPorts sw v ≠ [] → n.set.otherPorts sw v ≠ [] →
    res.1.vlans v = { n.set.vlans v with ports := n.set.otherPorts sw v } ∧
      (v ∈ res.1.freeVlans ↔ v ∈ n.set.freeVlans)
  freed : ∀ v ∈ l, n.set.switchPorts sw v ≠ [] → n.set.otherPorts sw v = [] →
    res.1.vlans v = ⟨false,[],""⟩ ∧ v ∈ res.1.freeVlans
  nodup : n.set.freeVlans.Nodup → res.1.freeVlans.Nodup
  removes : ∀ x ∈ res.2.1, ∃ v ∈ l, x = .removeVlan v
  removed : ∀ v ∈ l, n.set.switchPorts sw v ≠ [] → sw ∈ n.ethSwitches →
    .removeVlan v ∈ res.2.1
  ports : ∀ v ∈ l, n.set.switchPorts sw v ≠ [] → 0 < res.2.2

theorem nodup_freeVlan (h : s.freeVlans.Nodup) (v : ℕ) : (s.freeVlan v).freeVlans.Nodup := by
  unfold VlanSet.freeVlan
  split
  · exact h
  · next hv => exact List.nodup_append_comm.mp (List.nodup_cons.mpr ⟨hv,h⟩)

theorem loopSpec_nil (n : Net) (sw : String) : LoopSpec n sw [] (n.set,[],0) where
  only := rfl
  other := fun _ _ => ⟨rfl,Iff.rfl⟩
  kept := fun _ h => absurd h List.not_mem_nil
  freed := fun _ h => absurd h List.not_mem_nil
  nodup := id
  removes := fun _ h => absurd h List.not_mem_nil
  removed := fun _ h => absurd h List.not_mem_nil
  ports := fun _ h => absurd h List.not_mem_nil

/-- A VLAN met a second time has no port of the switch left. -/
theorem LoopSpec.switchPorts_eq {l : List ℕ} {res : VlanSet × List Line × ℕ}
    (h : LoopSpec n sw l res) (v : ℕ) :
    res.1.switchPorts sw v = if v ∈ l then [] else n.set.switchPorts sw v := by
  by_cases hv : v ∈ l
  · rw [if_pos hv]
    by_cases hp : n.set.switchPorts sw v = []
    · rw [← hp,VlanSet.switchPorts,VlanSet.switchPorts,(h.other v (.inr hp)).1]
    · by_cases ho : n.set.otherPorts sw v = []
      · simp [VlanSet.switchPorts,(h.freed v hv hp ho).1]
      · simp [VlanSet.switchPorts,(h.kept v hv hp ho).1,VlanSet.otherPorts,List.filter_filter]
  · rw [if_neg hv,VlanSet.switchPorts,(h.other v (.inl hv)).1]
    rfl

theorem LoopSpec.round {l : List ℕ} {res : VlanSet × List Line × ℕ}
    (h : LoopSpec n sw l res) (x : ℕ) : LoopSpec n sw (l ++ [x]) (n.clearRound sw res x) := by
  have hmem : ∀ v, v ∈ l ++ [x] ↔ v ∈ l ∨ v = x := by simp
  by_cases hx : res.1.switchPorts sw x = []
  · -- nothing to take off
    have hres : n.clearRound sw res x = (res.1,res.2.1,res.2.2) := by
      simp [Net.clearRound,hx,getClearVlanCmd_eq]
    have hold : ∀ v ∈ l ++ [x], n.set.switchPorts sw v ≠ [] → v ∈ l := by
      intro v hv hp
      rcases (hmem v).mp hv with hv | rfl
      · exact hv
      · by_contra hvl
        rw [h.switchPorts_eq,if_neg hvl] at hx
        exact hp hx
    rw [hres]
    constructor
    case only => exact h.only
    case other =>
      intro v hv
      exact h.other v (hv.imp_left fun hv hl => hv ((hmem v).mpr (.inl hl)))
    case kept => exact fun v hv hp => h.kept v (hold v hv hp) hp
    case freed => exact fun v hv hp => h.freed v (hold v hv hp) hp
    case nodup => exact h.nodup
    case removes =>
      intro y hy
      obtain ⟨v,hv,he⟩ := h.removes y hy
      exact ⟨v,(hmem v).mpr (.inl hv),he⟩
    case removed => exact fun v hv hp => h.removed v (hold v hv hp) hp
    case ports => exact fun v hv hp => h.ports v (hold v hv hp) hp
  · -- the first time that `x` is met, and it has ports on the switch
    have hxl : x ∉ l := by
      intro hxl
      rw [h.switchPorts_eq,if_pos hxl] at hx
      exact hx rfl
    have hx0 := h.other x (.inl hxl)
    have hp0 : n.set.switchPorts sw x ≠ [] := by
      rw [h.switchPorts_eq,if_neg hxl] at hx
      exact hx
    have ho0 : res.1.otherPorts sw x = n.set.otherPorts sw x := by
      rw [VlanSet.otherPorts,VlanSet.otherPorts,hx0.1]
    have hne : ∀ v ∈ l, v ≠ x := fun v hv he => hxl (he ▸ hv)
    have hset : (n.clearRound sw res x).1 = if n.set.otherPorts sw x = [] then
          (res.1.setVlan x ⟨false,[],""⟩).freeVlan x
        else res.1.setVlan x { n.set.vlans x with ports := n.set.otherPorts sw x } := by
      rw [Net.clearRound,getClearVlanCmd_eq,if_neg hx,ho0,hx0.1]
    have hlines : (n.clearRound sw res x).2.1 =
        res.2.1 ++ n.setSwitchVlanMembership [] sw x := if_neg hx
    have hframe : ∀ v, v ≠ x → (n.clearRound sw res x).1.vlans v = res.1.vlans v ∧
        (v ∈ (n.clearRound sw res x).1.freeVlans ↔ v ∈ res.1.freeVlans) := by
      intro v hv
      rw [hset]
      split
      · rw [vlans_freeVlan,mem_freeVlan]
        simp [VlanSet.setVlan,hv]
      · simp [VlanSet.setVlan,hv]
    constructor
    case only =>
      rw [hset]
      refine h.only.trans ?_
      split
      · exact (onlyVlans_setVlan _ _ _).trans (onlyVlans_freeVlan _ _)
      · exact onlyVlans_setVlan _ _ _
    case other =>
      intro v hv
      have hvx : v ≠ x := by
        rintro rfl
        exact hv.elim (fun hv => hv ((hmem v).mpr (.inr rfl))) hp0
      rw [(hframe v hvx).1,(hframe v hvx).2]
      exact h.other v (hv.imp_left fun hv hl => hv ((hmem v).mpr (.inl hl)))
    case kept =>
      intro v hv hp ho
      rcases (hmem v).mp hv with hv | rfl
      · rw [(hframe v (hne v hv)).1,(hframe v (hne v hv)).2]
        exact h.kept v hv hp ho
      · rw [hset,if_neg ho]
        refine ⟨?_,hx0.2⟩
        simp [VlanSet.setVlan]
    case freed =>
      intro v hv hp ho
      rcases (hmem v).mp hv with hv | rfl
      · rw [(hframe v (hne v hv)).1,(hframe v (hne v hv)).2]
        exact h.freed v hv hp ho
      · rw [hset,if_pos ho,vlans_freeVlan,mem_freeVlan]
        simp [VlanSet.setVlan]
    case nodup =>
      intro hn
      rw [hset]
      split
      · exact nodup_freeVlan (s := res.1.setVlan x _) (h.nodup hn) x
      · exact h.nodup hn
    case removes =>
      intro y hy
      rw [hlines,List.mem_append] at hy
      rcases hy with hy | hy
      · obtain ⟨v,hv,he⟩ := h.removes y hy
        exact ⟨v,(hmem v).mpr (.inl hv),he⟩
      · refine ⟨x,(hmem x).mpr (.inr rfl),?_⟩
        unfold Net.setSwitchVlanMembership at hy
        split at hy
        · simpa using hy
        · cases hy
    case removed =>
      intro v hv hp hsw
      rw [hlines,List.mem_append]
      rcases (hmem v).mp hv with hv | rfl
      · exact .inl (h.removed v hv hp hsw)
      · right
        simp [Net.setSwitchVlanMembership,hsw]
    case ports =>
      intro v hv hp
      exact Nat.lt_of_lt_of_le (List.length_pos_of_ne_nil hx) (Nat.le_add_left _ _)

theorem loopSpec_clearLoop (n : Net) (r : ℕ) (sw : String) :
    LoopSpec n sw (n.set.object r).removedVlans (n.clearLoop r sw) := by
  have h : ∀ l : List ℕ, LoopSpec n sw l (l.foldl (n.clearRound sw) (n.set,[],0)) := by
    intro l
    induction l using List.reverseRecOn with
    | nil => exact loopSpec_nil n sw
    | append_singleton l x ih =>
      rw [List.foldl_append]
      exact ih.round x
  exact h _

/-! ### The steps of a call and the call as a whole -/

theorem allocVlan_eq (s : VlanSet) (sid : String) :
    s.allocVlan sid = ((s.takeVlan sid).2.elim (s.takeVlan sid).1
      (fun x => (s.takeVlan sid).1.addVlanTo x.1 x.2), (s.takeVlan sid).2.map Prod.snd) := by
  rcases hf : s.freeVlans with _ | ⟨v,rest⟩
  · simp only [VlanSet.allocVlan,VlanSet.takeVlan,hf,Option.elim_none,Option.map_none]
  · simp only [VlanSet.allocVlan,VlanSet.takeVlan,hf]
    split
    · split
      · next r hr => simp only [hr,Option.elim_some,Option.map_some]
      · next hr => simp only [hr,Option.elim_some,Option.map_some]
    · rfl

theorem clearSwitch_loop (n : Net) (r : ℕ) (sw : String) :
    (n.clearSwitch r sw).set = (n.clearLoop r sw).1 := by
  unfold Net.clearSwitch
  simp only
  split
  · rfl
  · rfl

theorem clearSwitch_set (n : Net) (r : ℕ) (sw : String) :
    (n.clearSwitch r sw).set = n.set.clearSwitches [sw] (n.set.object r).removedVlans := by
  have hloop : ∀ (l : List ℕ) (acc : VlanSet × List Line × ℕ),
      (l.foldl (n.clearRound sw) acc).1 = l.foldl (fun s v => s.getClearVlanCmd sw v) acc.1 := by
    intro l
    induction l with
    | nil => exact fun _ => rfl
    | cons x l ih => exact fun acc => ih _
  exact (clearSwitch_loop n r sw).trans (hloop _ _)

theorem foldl_clearSwitch (n : Net) (r : ℕ) (switches : List String) :
    (switches.foldl (fun n sw => n.clearSwitch r sw) n).set =
      n.set.clearSwitches switches (n.set.object r).removedVlans := by
  induction switches generalizing n with
  | nil => rfl
  | cons sw switches ih =>
    have honly := (gives_clearSwitches n.set [sw] (n.set.object r).removedVlans).only
    have hobject : (n.set.clearSwitches [sw] (n.set.object r).removedVlans).object =
        n.set.object := by
      rw [honly]
    rw [List.foldl_cons,ih,clearSwitch_set,hobject]
    rfl

/-- The same VLANs and the same free list. -/
def SamePool (s t : VlanSet) : Prop := t.vlans = s.vlans ∧ t.freeVlans = s.freeVlans

theorem SamePool.freeVlan {t : VlanSet} (h : SamePool s t) (v : ℕ) :
    SamePool (s.freeVlan v) (t.freeVlan v) := by
  refine ⟨by rw [vlans_freeVlan,vlans_freeVlan,h.1],?_⟩
  unfold VlanSet.freeVlan
  simp only [h.2]
  split
  · exact h.2
  · rfl

theorem SamePool.getClearVlanCmd {t : VlanSet} (h : SamePool s t) (sw : String) (v : ℕ) :
    SamePool (s.getClearVlanCmd sw v) (t.getClearVlanCmd sw v) := by
  have hp : t.switchPorts sw v = s.switchPorts sw v := by
    rw [VlanSet.switchPorts,h.1,VlanSet.switchPorts]
  have ho : t.otherPorts sw v = s.otherPorts sw v := by
    rw [VlanSet.otherPorts,h.1,VlanSet.otherPorts]
  have hset : ∀ w, SamePool (s.setVlan v w) (t.setVlan v w) := by
    intro w
    refine ⟨?_,h.2⟩
    simp only [VlanSet.setVlan,h.1]
  rw [getClearVlanCmd_eq,getClearVlanCmd_eq]
  simp only [hp,ho,h.1]
  split
  · exact h
  · split
    · exact (hset _).freeVlan v
    · exact hset _

theorem SamePool.clearSwitches {t : VlanSet} (h : SamePool s t) (switches : List String)
    (l : List ℕ) : SamePool (s.clearSwitches switches l) (t.clearSwitches switches l) := by
  have hround : ∀ (sw : String) (l : List ℕ) {s t : VlanSet}, SamePool s t →
      SamePool (l.foldl (fun s v => s.getClearVlanCmd sw v) s)
        (l.foldl (fun s v => s.getClearVlanCmd sw v) t) := by
    intro sw l
    induction l with
    | nil => exact fun h => h
    | cons x l ih => exact fun h => ih (h.getClearVlanCmd sw x)
  induction switches generalizing s t with
  | nil => exact h
  | cons sw switches ih => exact ih (hround sw l h)

/-- A clear that goes through its switches with nothing in between is `clearCommands`. -/
theorem clearCommands_samePool (n : Net) (r : ℕ) (hc : (n.set.object r).cleared = false) :
    SamePool (n.set.clearCommands r) ((n.set.object r).switches.foldl
      (fun n sw => Net.clearSwitch n r sw) { n with set := n.set.beginClear r }).set := by
  have hremoved : ((n.set.beginClear r).object r).removedVlans =
      VlanSet.allRemoved (n.set.object r) := by
    simp [VlanSet.beginClear,VlanSet.setSession]
  have hbegin : SamePool n.set (n.set.beginClear r) := ⟨rfl,rfl⟩
  rw [foldl_clearSwitch,hremoved,VlanSet.clearCommands,if_neg (by simp [hc])]
  exact hbegin.clearSwitches _ _

/-! ### Sessions and their locks -/

/-- Which clears are under way, and what their commands say. -/
structure Locks (n : Net) : Prop where
  clearing : ∀ r, r ∈ n.set.clearing ↔ ∃ todo, n.job r = some (.clear todo)
  sessions : ∀ r ∈ n.set.sessions, r < n.set.made
  waiting : ∀ x ∈ n.waiting, x.1 < n.set.made
  made : ∀ r ∈ n.set.clearing, r < n.set.made
  clears : ∀ sw, ∀ c ∈ n.queue sw, ∀ r, c.sender = .clear r → r ∈ n.set.clearing ∧
    ∀ l ∈ c.lines, ∃ v ∈ (n.set.object r).removedVlans, l = .removeVlan v

/-- A step that neither begins nor ends a clear. -/
theorem Locks.frame (hl : Locks n) (hclearing : n'.set.clearing = n.set.clearing)
    (hmade : n.set.made ≤ n'.set.made) (hsessions : ∀ r ∈ n'.set.sessions, r < n'.set.made)
    (hwaiting : ∀ x ∈ n'.waiting, x.1 < n'.set.made)
    (hjob : ∀ r, (∃ todo, n'.job r = some (.clear todo)) ↔ ∃ todo, n.job r = some (.clear todo))
    (hobject : ∀ r ∈ n.set.clearing,
      (n'.set.object r).removedVlans = (n.set.object r).removedVlans)
    (hqueue : ∀ sw, ∀ c ∈ n'.queue sw, c ∈ n.queue sw ∨ ∀ r, c.sender = .clear r →
      r ∈ n.set.clearing ∧ ∀ l ∈ c.lines, ∃ v ∈ (n.set.object r).removedVlans,
        l = .removeVlan v) : Locks n' := by
  constructor
  case clearing =>
    intro r
    rw [hclearing,hl.clearing,hjob]
  case sessions => exact hsessions
  case waiting => exact hwaiting
  case made =>
    intro r hr
    rw [hclearing] at hr
    exact Nat.lt_of_lt_of_le (hl.made r hr) hmade
  case clears =>
    intro sw c hc r hs
    have h : r ∈ n.set.clearing ∧ ∀ l ∈ c.lines, ∃ v ∈ (n.set.object r).removedVlans,
        l = .removeVlan v := by
      rcases hqueue sw c hc with hc | hnew
      · exact hl.clears sw c hc r hs
      · exact hnew r hs
    rw [hclearing,hobject r h.1]
    exact h

theorem waiting_append (hl : Locks n) {l : List (ℕ × Call)} (h : ∀ x ∈ l, x.1 < n.set.made) :
    ∀ x ∈ n.waiting ++ l, x.1 < n.set.made := by
  intro x hx
  exact (List.mem_append.mp hx).elim (hl.waiting x) (h x)

/-- A request that finds a session and leaves the rest to a call that waits for its lock. -/
theorem Locks.request (hl : Locks n) (sid : String) (call : Call) :
    Locks { n with waiting := n.waiting ++ (n.set.getSession sid).toList.map (·,call) } := by
  refine hl.frame rfl (Nat.le_refl _) hl.sessions (waiting_append hl ?_) (fun r => Iff.rfl)
    (fun r hr => rfl) (fun sw c hc => .inl hc)
  intro x hx
  obtain ⟨r,hr,rfl⟩ := List.mem_map.mp hx
  exact hl.sessions r (getSession_mem (Option.mem_toList.mp hr))

/-- `alloc_vlan` takes the first free VLAN, if it can be used, for the session of that name,
which may be a new one. -/
theorem takeVlan_cases (s : VlanSet) (sid : String) :
    s.takeVlan sid = (s,none) ∨ ∃ v rest, s.freeVlans = v :: rest ∧
      (s.takeVlan sid = ({ s with freeVlans := rest },none) ∨
      (∃ r ∈ s.sessions, s.takeVlan sid = (s.marked v rest sid,some (r,v))) ∨
      s.takeVlan sid = ((s.marked v rest sid).newSession sid,some (s.made,v))) := by
  rcases hf : s.freeVlans with _ | ⟨v,rest⟩
  · left
    simp only [VlanSet.takeVlan,hf]
  · refine .inr ⟨v,rest,rfl,?_⟩
    simp only [VlanSet.takeVlan,hf]
    split
    · right
      split
      · next r hr => exact .inl ⟨r,getSession_mem hr,rfl⟩
      · exact .inr rfl
    · exact .inl rfl

theorem Locks.addVlan (hl : Locks n) (sid : String) :
    Locks { n with
      set := (n.set.takeVlan sid).1
      waiting := n.waiting ++ (n.set.takeVlan sid).2.toList.map fun x => (x.1,.addVlan x.2) } := by
  rcases takeVlan_cases n.set sid with he | ⟨v,rest,hf,he | ⟨r,hr,he⟩ | he⟩
  · simp only [he,Option.toList_none,List.map_nil,List.append_nil]
    exact hl
  · simp only [he,Option.toList_none,List.map_nil,List.append_nil]
    exact hl.frame rfl (Nat.le_refl _) hl.sessions hl.waiting (fun r => Iff.rfl) (fun r hr => rfl)
      (fun sw c hc => .inl hc)
  · simp only [he,Option.toList_some,List.map_cons,List.map_nil]
    refine hl.frame rfl (Nat.le_refl _) hl.sessions (waiting_append hl ?_) (fun r => Iff.rfl)
      (fun r hr => rfl) (fun sw c hc => .inl hc)
    intro x hx
    rw [List.mem_singleton.mp hx]
    exact hl.sessions r hr
  · simp only [he,Option.toList_some,List.map_cons,List.map_nil]
    have hlt : ∀ {r : ℕ}, r < n.set.made → r < n.set.made + 1 := Nat.lt_succ_of_lt
    refine hl.frame rfl (Nat.le_succ _) ?_ ?_ (fun r => Iff.rfl) ?_ (fun sw c hc => .inl hc)
    · intro r hr
      rcases List.mem_append.mp hr with hr | hr
      · exact hlt (hl.sessions r hr)
      · rw [List.mem_singleton.mp hr]
        exact Nat.lt_succ_self _
    · intro x hx
      rcases List.mem_append.mp hx with hx | hx
      · exact hlt (hl.waiting x hx)
      · rw [List.mem_singleton.mp hx]
        exact Nat.lt_succ_self _
    · intro r hr
      have hne : r ≠ n.set.made := Nat.ne_of_lt (hl.made r hr)
      simp [VlanSet.newSession,VlanSet.marked,VlanSet.setVlan,hne]

/-- A loop that is not a clear begins, goes on or ends. -/
theorem job_update {j : ℕ → Option Job} {b : Option Job} (h : ∀ todo, j r ≠ some (.clear todo))
    (hb : ∀ todo, b ≠ some (.clear todo)) (r' : ℕ) :
    (∃ todo, Function.update j r b r' = some (.clear todo)) ↔ ∃ todo, j r' = some (.clear todo) := by
  by_cases hr : r' = r
  · subst hr
    rw [Function.update_self]
    exact ⟨fun ⟨todo,ht⟩ => absurd ht (hb todo),fun ⟨todo,ht⟩ => absurd ht (h todo)⟩
  · rw [Function.update_of_ne hr]

theorem Locks.not_clearing (hl : Locks n) (hj : n.job r = none) : r ∉ n.set.clearing := by
  intro hr
  obtain ⟨todo,ht⟩ := (hl.clearing r).mp hr
  rw [hj] at ht
  cases ht

/-- A session object changes while its lock is free. -/
theorem Locks.setSession (hl : Locks n) (hj : n.job r = none) (o : Session) :
    Locks { n with set := n.set.setSession r o } := by
  refine hl.frame rfl (Nat.le_refl _) hl.sessions hl.waiting (fun r => Iff.rfl) ?_
    (fun sw c hc => .inl hc)
  intro r' hr'
  have hne : r' ≠ r := fun he => hl.not_clearing hj (he ▸ hr')
  simp [VlanSet.setSession,hne]

theorem Locks.perform (hl : Locks n) (hr : r < n.set.made) (hj : n.job r = none) (call : Call) :
    Locks (n.perform r call) := by
  cases call with
  | addVlan v => exact hl.setSession hj _
  | addSwitch swid =>
    unfold Net.perform VlanSet.addSwitch
    simp only
    split
    · exact hl
    · exact hl.setSession hj _
  | removeVlan v =>
    have ht : Locks { n with set := n.set.removeVlan r v } := by
      unfold VlanSet.removeVlan
      simp only
      split
      · exact hl.setSession hj _
      · exact hl
    have hmade : (n.set.removeVlan r v).made = n.set.made := by
      unfold VlanSet.removeVlan
      simp only
      split
      · rfl
      · rfl
    refine ht.frame rfl (Nat.le_refl _) ht.sessions ?_ (fun r => Iff.rfl) (fun r hr => rfl)
      (fun sw c hc => .inl hc)
    intro x hx
    simp only [Net.perform] at hx ⊢
    split at hx
    · rcases List.mem_append.mp hx with hx | hx
      · exact ht.waiting x hx
      · rw [List.mem_singleton.mp hx,hmade]
        exact hr
    · exact ht.waiting x hx
  | createVlans =>
    unfold Net.perform
    simp only
    split
    · exact hl
    · refine hl.frame rfl (Nat.le_refl _) hl.sessions hl.waiting (job_update ?_ ?_) (fun r hr => rfl)
        (fun sw c hc => .inl hc)
      · intro todo
        rw [hj]
        nofun
      · exact fun todo => nofun
  | clearSession =>
    unfold Net.perform
    simp only
    split
    · exact hl
    · have hne : ∀ {r'}, r' ∈ n.set.clearing → r' ≠ r := fun hr' he =>
        hl.not_clearing hj (he ▸ hr')
      constructor
      case clearing =>
        intro r'
        by_cases hrr : r' = r
        · subst hrr
          simp [VlanSet.beginClear]
        · simp [VlanSet.beginClear,VlanSet.setSession,hrr,hl.clearing]
      case sessions => exact hl.sessions
      case waiting => exact hl.waiting
      case made =>
        intro r' hr'
        rcases List.mem_cons.mp hr' with rfl | hr'
        · exact hr
        · exact hl.made r' hr'
      case clears =>
        intro sw c hc r' hs
        obtain ⟨hr',hlines⟩ := hl.clears sw c hc r' hs
        refine ⟨List.mem_cons_of_mem _ hr',?_⟩
        simp only [VlanSet.beginClear,VlanSet.setSession,Function.update_of_ne (hne hr')]
        exact hlines

theorem Locks.clearSwitch (hl : Locks n) {todo : List String}
    (hj : n.job r = some (.clear (sw :: todo))) :
    Locks { n.clearSwitch r sw with job := Function.update n.job r (some (.clear todo)) } := by
  have hspec := loopSpec_clearLoop n r sw
  have honly := hspec.only
  have hset : (n.clearSwitch r sw).set = (n.clearLoop r sw).1 := clearSwitch_loop n r sw
  have hr : r ∈ n.set.clearing := (hl.clearing r).mpr ⟨_,hj⟩
  refine hl.frame ?_ ?_ ?_ ?_ ?_ ?_ ?_
  · rw [hset,honly]
  · exact Nat.le_of_eq (by rw [hset,honly])
  · rw [hset,honly]
    exact hl.sessions
  · rw [hset,honly]
    unfold Net.clearSwitch
    simp only
    split
    · exact hl.waiting
    · exact hl.waiting
  · intro r'
    by_cases hrr : r' = r
    · subst hrr
      simp only [Function.update_self,hj,Option.some.injEq,Job.clear.injEq,exists_eq']
    · simp only [Function.update_of_ne hrr]
  · intro r' hr'
    rw [hset,honly]
  · intro sw' c hc
    unfold Net.clearSwitch at hc
    simp only at hc
    split at hc
    · by_cases hsw : sw' = sw
      · subst hsw
        simp only [Net.send,Function.update_self] at hc
        rcases List.mem_append.mp hc with hc | hc
        · exact .inl hc
        · right
          rw [List.mem_singleton.mp hc]
          intro r' hs
          obtain rfl : r = r' := by simpa using hs
          exact ⟨hr,hspec.removes⟩
      · simp only [Net.send,Function.update_of_ne hsw] at hc
        exact .inl hc
    · exact .inl hc

theorem Locks.cleared (hl : Locks n) (hj : n.job r = some (.clear [])) (hq : n.Returned r) :
    Locks { n with
      set := n.set.clearIfEmpty r
      job := Function.update n.job r none } := by
  have honly := (empties_clearIfEmpty n.set (n.set.object r).removedVlans).only
  have hmem : ∀ r', r' ∈ (n.set.clearIfEmpty r).clearing ↔ r' ∈ n.set.clearing ∧ r' ≠ r := by
    intro r'
    simp [VlanSet.clearIfEmpty]
  have hmade : (n.set.clearIfEmpty r).made = n.set.made := by
    simp only [VlanSet.clearIfEmpty,VlanSet.setSession]
    rw [honly]
  have hobject : ∀ r', ((n.set.clearIfEmpty r).object r').removedVlans =
      (n.set.object r').removedVlans := by
    intro r'
    simp only [VlanSet.clearIfEmpty,VlanSet.setSession]
    rw [honly]
    by_cases hr : r' = r
    · subst hr
      simp
    · simp [hr]
  constructor
  case clearing =>
    intro r'
    simp only
    rw [hmem,hl.clearing]
    by_cases hr : r' = r
    · subst hr
      simp
    · simp [hr]
  case sessions =>
    intro r' hr'
    rw [hmade]
    refine hl.sessions r' ?_
    simp only [VlanSet.clearIfEmpty,VlanSet.setSession] at hr'
    rw [honly] at hr'
    exact hr'
  case waiting =>
    intro x hx
    rw [hmade]
    exact hl.waiting x hx
  case made =>
    intro r' hr'
    rw [hmade]
    exact hl.made r' ((hmem r').mp hr').1
  case clears =>
    intro sw c hc r' hs
    obtain ⟨hr',hlines⟩ := hl.clears sw c hc r' hs
    have hne : r' ≠ r := by
      rintro rfl
      exact (hq sw c hc).2 hs
    rw [hobject]
    exact ⟨(hmem r').mpr ⟨hr',hne⟩,hlines⟩

/-- A switch takes the first of its commands. -/
theorem Locks.popped (hl : Locks n) {c : SwitchCmd} {cs : List SwitchCmd}
    (hq : n.queue sw = c :: cs) (m : String → ℕ → List Member) :
    Locks { n with queue := Function.update n.queue sw cs, members := m } := by
  refine hl.frame rfl (Nat.le_refl _) hl.sessions hl.waiting (fun r => Iff.rfl) (fun r hr => rfl) ?_
  intro sw' c' hc'
  left
  by_cases hsw : sw' = sw
  · subst hsw
    simp only [Function.update_self] at hc'
    rw [hq]
    exact List.mem_cons_of_mem _ hc'
  · simpa only [Function.update_of_ne hsw] using hc'

theorem Locks.step (hl : Locks n) (h : NetStep n e n') : Locks n' := by
  cases h with
  | addVlan => exact hl.addVlan _
  | deleteVlan => exact hl.request _ _
  | addToVlan hr hv hu hsid =>
    refine hl.frame rfl (Nat.le_refl _) hl.sessions (waiting_append hl ?_) (fun r => Iff.rfl)
      (fun r hr => rfl) (fun sw c hc => .inl hc)
    intro x hx
    rw [List.mem_singleton.mp hx]
    exact hl.sessions _ (getSession_mem hr)
  | addToVlanFails h => exact hl
  | startSession => exact hl.request _ _
  | endSession => exact hl.request _ _
  | initSwitches =>
    refine hl.frame rfl (Nat.le_refl _) hl.sessions hl.waiting (fun r => Iff.rfl) (fun r hr => rfl) ?_
    intro sw c hc
    simp only at hc
    split at hc
    · rcases List.mem_append.mp hc with hc | hc
      · exact .inl hc
      · rw [List.mem_singleton.mp hc]
        exact .inr fun r => nofun
    · exact .inl hc
  | initVlans =>
    refine hl.frame rfl (Nat.le_refl _) (fun r hr => absurd hr List.not_mem_nil) ?_ (fun r => Iff.rfl)
      (fun r hr => rfl) (fun sw c hc => .inl hc)
    refine waiting_append hl ?_
    intro x hx
    obtain ⟨r,hr,rfl⟩ := List.mem_map.mp hx
    exact hl.sessions r hr
  | @enter r call hw hj =>
    have hl' : Locks { n with waiting := n.waiting.erase (r,call) } :=
      hl.frame rfl (Nat.le_refl _) hl.sessions (fun x hx => hl.waiting x (List.mem_of_mem_erase hx))
        (fun r => Iff.rfl) (fun r hr => rfl) (fun sw c hc => .inl hc)
    exact hl'.perform (hl.waiting _ hw) hj call
  | @createSwitch r sw todo hj =>
    refine hl.frame rfl (Nat.le_refl _) hl.sessions hl.waiting (job_update ?_ ?_) (fun r hr => rfl) ?_
    · intro todo
      rw [hj]
      nofun
    · exact fun todo => nofun
    · intro sw' c hc
      by_cases hsw : sw' = sw
      · subst hsw
        simp only [Net.send,Function.update_self] at hc
        rcases List.mem_append.mp hc with hc | hc
        · exact .inl hc
        · rw [List.mem_singleton.mp hc]
          exact .inr fun r => nofun
      · simp only [Net.send,Function.update_of_ne hsw] at hc
        exact .inl hc
  | clearSwitch hj => exact hl.clearSwitch hj
  | created hj hq =>
    refine hl.frame rfl (Nat.le_refl _) hl.sessions hl.waiting (job_update ?_ ?_) (fun r hr => rfl)
      (fun sw c hc => .inl hc)
    · intro todo
      rw [hj]
      nofun
    · exact fun todo => nofun
  | cleared hj hq => exact hl.cleared hj hq
  | removeSession h =>
    exact hl.frame rfl (Nat.le_refl _) (fun r hr => hl.sessions r (List.mem_of_mem_filter hr))
      hl.waiting (fun r => Iff.rfl) (fun r hr => rfl) (fun sw c hc => .inl hc)
  | execute hq => exact hl.popped hq _
  | fail hq hlines => exact hl.popped hq _

/-! ### The VLANs and what the switches have in them -/

/-- What is on its way to the switches for a VLAN is all from one session, the one that has the
VLAN if it is in use. Once the clears in the queues are executed a VLAN has ports in a switch only
if it has ports of that switch, and a free VLAN has none. -/
structure Vlans (n : Net) : Prop where
  nodup : n.set.freeVlans.Nodup
  free : ∀ v ∈ n.set.freeVlans, (n.set.vlans v).inUse = false
  unused : ∀ v, (n.set.vlans v).inUse = false → (n.set.vlans v).ports = []
  putBy : ∀ v, ∀ p ∈ (n.set.vlans v).ports, n.putBy v p = (n.set.vlans v).sessionID
  owner : ∀ v, ∃ sid, (∀ sw m, n.Outstanding sw v m → m.putBy = sid) ∧
    ((n.set.vlans v).inUse = true → sid = (n.set.vlans v).sessionID)
  occupied : ∀ sw v, n.Occupied sw v → v ∉ n.set.freeVlans ∧ sw ∈ n.ethSwitches ∧
    ((n.set.vlans v).inUse = true → ∃ p ∈ (n.set.vlans v).ports, p.switchId = sw)

theorem Vlans.inUse (hv : Vlans n) {p : SwitchPort} (hp : p ∈ (n.set.vlans v).ports) :
    (n.set.vlans v).inUse = true := by
  by_contra hu
  rw [hv.unused v (Bool.eq_false_iff.mpr hu)] at hp
  cases hp

/-- Steps that only concern sessions, their locks and the switch list. -/
theorem Vlans.same (hv : Vlans n) (hvlans : n'.set.vlans = n.set.vlans)
    (hfree : n'.set.freeVlans = n.set.freeVlans) (heth : n.ethSwitches ⊆ n'.ethSwitches)
    (hqueue : n'.queue = n.queue) (hmembers : n'.members = n.members)
    (hputBy : n'.putBy = n.putBy) : Vlans n' := by
  constructor
  case nodup =>
    rw [hfree]
    exact hv.nodup
  case free =>
    rw [hfree,hvlans]
    exact hv.free
  case unused =>
    rw [hvlans]
    exact hv.unused
  case putBy =>
    rw [hvlans,hputBy]
    exact hv.putBy
  case owner =>
    unfold Net.Outstanding
    rw [hvlans,hqueue,hmembers]
    exact hv.owner
  case occupied =>
    intro sw v ho
    unfold Net.Occupied at ho
    rw [hqueue,hmembers] at ho
    rw [hvlans,hfree]
    have h := hv.occupied sw v ho
    exact ⟨h.1,heth h.2.1,h.2.2⟩

/-- A VLAN that no clear under way has on its removed list is in no switch any more when it is
free. -/
theorem not_outstanding (hl : Locks n) (hv : Vlans n) (hf : v ∈ n.set.freeVlans)
    (hc : ∀ r ∈ n.set.clearing, v ∉ (n.set.object r).removedVlans) (sw : String) (m : Member) :
    ¬ n.Outstanding sw v m := by
  refine outstanding_eq_false (fun ho => (hv.occupied sw v ho).1 hf) ?_ m
  rintro c hcq r ⟨hs,hrm⟩
  obtain ⟨hr,hlines⟩ := hl.clears sw c hcq r hs
  obtain ⟨w,hw,he⟩ := hlines _ hrm
  cases he
  exact hc r hr hw

/-- The first free VLAN is taken and marked for a session. -/
theorem Vlans.marked (hl : Locks n) (hv : Vlans n) {rest : List ℕ} (sid : String)
    (hf : n.set.freeVlans = v :: rest)
    (hc : ∀ r ∈ n.set.clearing, v ∉ (n.set.object r).removedVlans) :
    Vlans { n with set := n.set.marked v rest sid } := by
  have hfv : v ∈ n.set.freeVlans := hf ▸ List.mem_cons_self
  have hsub : ∀ w, w ∈ rest → w ∈ n.set.freeVlans := fun w hw => hf ▸ List.mem_cons_of_mem v hw
  have hnodup : (v :: rest).Nodup := hf ▸ hv.nodup
  have hne : ∀ w ∈ rest, w ≠ v := fun w hw he => (List.nodup_cons.mp hnodup).1 (he ▸ hw)
  have hno := not_outstanding hl hv hfv hc
  have hports : (n.set.vlans v).ports = [] := hv.unused v (hv.free v hfv)
  have hself : (n.set.marked v rest sid).vlans v =
      { n.set.vlans v with inUse := true, sessionID := sid } := Function.update_self ..
  have hother : ∀ w, w ≠ v → (n.set.marked v rest sid).vlans w = n.set.vlans w :=
    fun w hw => Function.update_of_ne hw ..
  constructor
  case nodup => exact (List.nodup_cons.mp hnodup).2
  case free =>
    intro w hw
    simp only
    rw [hother w (hne w hw)]
    exact hv.free w (hsub w hw)
  case unused =>
    intro w hu
    by_cases hw : w = v
    · subst hw
      simp only [hself] at hu
      cases hu
    · simp only [hother w hw] at hu ⊢
      exact hv.unused w hu
  case putBy =>
    intro w p hp
    by_cases hw : w = v
    · subst hw
      simp only [hself,hports] at hp
      cases hp
    · simp only [hother w hw] at hp ⊢
      exact hv.putBy w p hp
  case owner =>
    intro w
    by_cases hw : w = v
    · subst hw
      refine ⟨sid,fun sw m hm => absurd hm (hno sw m),fun _ => ?_⟩
      simp only [hself]
    · simp only [hother w hw]
      exact hv.owner w
  case occupied =>
    intro sw w ho
    have h := hv.occupied sw w ho
    have hw : w ≠ v := fun he => h.1 (he ▸ hfv)
    simp only [hother w hw]
    exact ⟨fun hr => h.1 (hsub w hr),h.2⟩

theorem Vlans.addVlan (hl : Locks n) (hv : Vlans n) (sid : String)
    (hc : Orderly n (.addVlan sid)) (waiting : List (ℕ × Call)) :
    Vlans { n with set := (n.set.takeVlan sid).1, waiting := waiting } := by
  rcases takeVlan_cases n.set sid with he | ⟨v,rest,hf,h⟩
  · rw [he]
    exact hv.same rfl rfl (fun _ h => h) rfl rfl rfl
  · have hc' := hc v (by rw [hf]; rfl)
    rcases h with he | ⟨r,hr,he⟩ | he
    · rw [he]
      have hsub : ∀ w, w ∈ rest → w ∈ n.set.freeVlans :=
        fun w hw => hf ▸ List.mem_cons_of_mem v hw
      have hnodup : (v :: rest).Nodup := hf ▸ hv.nodup
      constructor
      case nodup => exact (List.nodup_cons.mp hnodup).2
      case free => exact fun w hw => hv.free w (hsub w hw)
      case unused => exact hv.unused
      case putBy => exact hv.putBy
      case owner => exact hv.owner
      case occupied =>
        intro sw w ho
        have h := hv.occupied sw w ho
        exact ⟨fun hw => h.1 (hsub w hw),h.2⟩
    · rw [he]
      exact (hv.marked hl sid hf hc').same rfl rfl (fun _ h => h) rfl rfl rfl
    · rw [he]
      exact (hv.marked hl sid hf hc').same rfl rfl (fun _ h => h) rfl rfl rfl

theorem Vlans.addToVlan (hv : Vlans n) (hu : (n.set.vlans v).inUse = true) {sid : String}
    (hsid : (n.set.vlans v).sessionID = sid) (port : SwitchPort) (waiting : List (ℕ × Call)) :
    Vlans { n with
      set := n.set.setVlan v { n.set.vlans v with ports := (n.set.vlans v).ports ++ [port] }
      waiting := waiting
      putBy := Function.update n.putBy v (Function.update (n.putBy v) port sid) } := by
  constructor
  case nodup => exact hv.nodup
  case free =>
    intro w hw
    have hne : w ≠ v := by
      rintro rfl
      rw [hv.free w hw] at hu
      cases hu
    simp only [VlanSet.setVlan,Function.update_of_ne hne]
    exact hv.free w hw
  case unused =>
    intro w hw
    by_cases hne : w = v
    · subst hne
      simp [VlanSet.setVlan,hu] at hw
    · simp only [VlanSet.setVlan,Function.update_of_ne hne] at hw ⊢
      exact hv.unused w hw
  case putBy =>
    intro w p hp
    by_cases hne : w = v
    · subst hne
      simp only [VlanSet.setVlan,Function.update_self,List.mem_append,List.mem_singleton] at hp ⊢
      by_cases hpp : p = port
      · rw [hpp,Function.update_self,hsid]
      · rw [Function.update_of_ne hpp]
        exact hv.putBy w p (hp.resolve_right hpp)
    · simp only [VlanSet.setVlan,Function.update_of_ne hne] at hp ⊢
      exact hv.putBy w p hp
  case owner =>
    intro w
    obtain ⟨o,hm,ho⟩ := hv.owner w
    refine ⟨o,hm,?_⟩
    by_cases hne : w = v
    · subst hne
      simp only [VlanSet.setVlan,Function.update_self]
      exact ho
    · simp only [VlanSet.setVlan,Function.update_of_ne hne]
      exact ho
  case occupied =>
    intro sw w ho
    obtain ⟨hf,hsw,hport⟩ := hv.occupied sw w ho
    refine ⟨hf,hsw,?_⟩
    by_cases hne : w = v
    · subst hne
      simp only [VlanSet.setVlan,Function.update_self]
      intro hu
      obtain ⟨p,hp,hps⟩ := hport hu
      exact ⟨p,List.mem_append_left _ hp,hps⟩
    · simp only [VlanSet.setVlan,Function.update_of_ne hne]
      exact hport

/-- A call that has the lock of its session changes that session only. -/
theorem Vlans.perform (hv : Vlans n) (r : ℕ) (call : Call) : Vlans (n.perform r call) := by
  have hsub : n.ethSwitches ⊆ n.ethSwitches := fun _ h => h
  cases call with
  | addVlan v => exact hv.same rfl rfl hsub rfl rfl rfl
  | addSwitch swid =>
    unfold Net.perform VlanSet.addSwitch
    simp only
    split
    · exact hv
    · exact hv.same rfl rfl hsub rfl rfl rfl
  | removeVlan v =>
    have hs : (n.set.removeVlan r v).vlans = n.set.vlans ∧
        (n.set.removeVlan r v).freeVlans = n.set.freeVlans := by
      unfold VlanSet.removeVlan
      simp only
      split
      · exact ⟨rfl,rfl⟩
      · exact ⟨rfl,rfl⟩
    exact hv.same hs.1 hs.2 hsub rfl rfl rfl
  | createVlans =>
    unfold Net.perform
    simp only
    split
    · exact hv
    · exact hv.same rfl rfl hsub rfl rfl rfl
  | clearSession =>
    unfold Net.perform
    simp only
    split
    · exact hv
    · exact hv.same rfl rfl hsub rfl rfl rfl

/-- Commands that are no clear's go out: each puts in a VLAN only ports of the VLAN on that
switch. -/
theorem Vlans.sent (hv : Vlans n) {queue : String → List SwitchCmd} {eth : List String}
    (heth : n.ethSwitches ⊆ eth)
    (hqueue : ∀ sw, queue sw = n.queue sw ∨ ∃ c, queue sw = n.queue sw ++ [c] ∧
      ∀ v, ∀ m ∈ c.adds v, sw ∈ eth ∧
        ∃ p ∈ (n.set.vlans v).ports, p.switchId = sw ∧ m = ⟨p,n.putBy v p⟩) :
    Vlans { n with ethSwitches := eth, queue := queue } := by
  constructor
  case nodup => exact hv.nodup
  case free => exact hv.free
  case unused => exact hv.unused
  case putBy => exact hv.putBy
  case owner =>
    intro v
    obtain ⟨o,hm,ho⟩ := hv.owner v
    refine ⟨o,?_,ho⟩
    intro sw m hout
    rcases hout with hmem | ⟨c,hc,hadd⟩
    · exact hm sw m (.inl hmem)
    · simp only at hc
      rcases hqueue sw with he | ⟨d,he,hd⟩
      · rw [he] at hc
        exact hm sw m (.inr ⟨c,hc,hadd⟩)
      · rw [he,List.mem_append] at hc
        rcases hc with hc | hc
        · exact hm sw m (.inr ⟨c,hc,hadd⟩)
        · rw [List.mem_singleton.mp hc] at hadd
          obtain ⟨_,p,hp,_,rfl⟩ := hd v m hadd
          rw [ho (hv.inUse hp),hv.putBy v p hp]
  case occupied =>
    intro sw v hocc
    have hold : n.Occupied sw v → v ∉ n.set.freeVlans ∧ sw ∈ eth ∧
        ((n.set.vlans v).inUse = true → ∃ p ∈ (n.set.vlans v).ports, p.switchId = sw) := by
      intro hocc
      have h := hv.occupied sw v hocc
      exact ⟨h.1,heth h.2.1,h.2.2⟩
    unfold Net.Occupied at hocc
    simp only at hocc
    rcases hqueue sw with he | ⟨d,he,hd⟩
    · rw [he] at hocc
      exact hold hocc
    · rw [he,occupied_snoc] at hocc
      rcases hocc.1 with hocc | hne
      · exact hold hocc
      · obtain ⟨m,hm⟩ := List.exists_mem_of_ne_nil _ hne
        obtain ⟨hsw,p,hp,hps,_⟩ := hd v m hm
        refine ⟨fun hf => ?_,hsw,fun _ => ⟨p,hp,hps⟩⟩
        have hu := hv.inUse hp
        rw [hv.free v hf] at hu
        cases hu

theorem mem_adds_createCmd {m : Member} (h : m ∈ (n.createCmd r sw).adds v) :
    sw ∈ n.ethSwitches ∧ ∃ p ∈ (n.set.vlans v).ports, p.switchId = sw ∧ m = ⟨p,n.putBy v p⟩ := by
  obtain ⟨l,hl,hm⟩ := List.mem_flatMap.mp h
  obtain ⟨w,_,hlw⟩ := List.mem_flatMap.mp hl
  unfold Net.getAddPortsCmd Net.setSwitchVlanMembership at hlw
  split at hlw
  · next hsw =>
    refine ⟨hsw,?_⟩
    rcases List.mem_cons.mp hlw with rfl | hlw
    · cases hm
    · split at hlw
      · cases hlw
      · obtain rfl := List.mem_singleton.mp hlw
        by_cases hwv : w = v
        · subst hwv
          simp only [Line.added,if_true,List.mem_map] at hm
          obtain ⟨p,hp,rfl⟩ := hm
          have hp' := List.mem_filter.mp hp
          exact ⟨p,hp'.1,by simpa using hp'.2,rfl⟩
        · simp [Line.added,hwv] at hm
  · cases hlw

theorem Vlans.createSwitch (hv : Vlans n) (r : ℕ) (sw : String) :
    Vlans (n.send sw (n.createCmd r sw)) := by
  refine hv.sent (fun _ h => h) ?_
  intro sw'
  by_cases hsw : sw' = sw
  · subst hsw
    exact .inr ⟨_,Function.update_self ..,fun v m hm => mem_adds_createCmd hm⟩
  · exact .inl (Function.update_of_ne hsw ..)

theorem Vlans.initSwitches (hv : Vlans n) {switches : List String}
    (hc : n.ethSwitches ⊆ switches) :
    Vlans { n with
      ethSwitches := switches
      queue := fun sw => if sw ∈ switches then n.queue sw ++ [⟨.initSwitch,[.allowNone]⟩]
        else n.queue sw } := by
  refine hv.sent hc ?_
  intro sw
  by_cases hsw : sw ∈ switches
  · refine .inr ⟨_,if_pos hsw,fun v m hm => ?_⟩
    cases hm
  · exact .inl (if_neg hsw)

theorem Vlans.initVlans (hv : Vlans n) (waiting : List (ℕ × Call)) :
    Vlans { n with set := n.set.initializeVlans, waiting := waiting } where
  nodup := hv.nodup
  free := fun _ _ => rfl
  unused := fun _ _ => rfl
  putBy := fun _ _ hp => absurd hp List.not_mem_nil
  owner := by
    intro v
    obtain ⟨o,hm,_⟩ := hv.owner v
    exact ⟨o,hm,fun hu => by cases hu⟩
  occupied := by
    intro sw v ho
    have h := hv.occupied sw v ho
    exact ⟨h.1,h.2.1,fun hu => by cases hu⟩

/-- A command is executed, all of it if it is a clear's. -/
theorem Vlans.popped (hl : Locks n) (hv : Vlans n) {c : SwitchCmd} {cs : List SwitchCmd}
    (hq : n.queue sw = c :: cs) {lines : List Line} (hsub : lines ⊆ c.lines)
    (hclear : ∀ r, c.sender = .clear r → lines = c.lines) :
    Vlans { n with
      queue := Function.update n.queue sw cs
      members := Function.update n.members sw (lines.foldl Line.run (n.members sw)) } := by
  have hc : c ∈ n.queue sw := hq ▸ List.mem_cons_self
  have hadds : ∀ {v m}, m ∈ lines.flatMap (Line.added v) → m ∈ c.adds v := by
    intro v m hm
    obtain ⟨l,hl,hm⟩ := List.mem_flatMap.mp hm
    exact List.mem_flatMap.mpr ⟨l,hsub hl,hm⟩
  constructor
  case nodup => exact hv.nodup
  case free => exact hv.free
  case unused => exact hv.unused
  case putBy => exact hv.putBy
  case owner =>
    intro v
    obtain ⟨o,hm,ho⟩ := hv.owner v
    refine ⟨o,?_,ho⟩
    intro sw' m hout
    by_cases hsw : sw' = sw
    · subst hsw
      unfold Net.Outstanding at hout
      simp only [Function.update_self] at hout
      rcases hout with hmem | ⟨d,hd,hadd⟩
      · rcases mem_run hmem with hmem | hadd
        · exact hm sw' m (.inl hmem)
        · exact hm sw' m (.inr ⟨c,hc,hadds hadd⟩)
      · exact hm sw' m (.inr ⟨d,by rw [hq]; exact List.mem_cons_of_mem _ hd,hadd⟩)
    · unfold Net.Outstanding at hout
      simp only [Function.update_of_ne hsw] at hout
      exact hm sw' m hout
  case occupied =>
    intro sw' v hocc
    refine hv.occupied sw' v ?_
    unfold Net.Occupied at hocc ⊢
    by_cases hsw : sw' = sw
    · subst hsw
      simp only [Function.update_self] at hocc
      rw [hq]
      show Nmd.Occupied v _ cs
      refine Occupied.mono (fun hne => ?_) hocc
      obtain ⟨m,hm⟩ := List.exists_mem_of_ne_nil _ hne
      refine ⟨?_,?_⟩
      · exact (mem_run hm).imp List.ne_nil_of_mem fun h => List.ne_nil_of_mem (hadds h)
      · rintro r ⟨hs,hrm⟩
        have hrun : ∀ l ∈ c.lines, ∃ w, l = .removeVlan w := by
          intro l hlc
          obtain ⟨w,_,he⟩ := (hl.clears sw' c hc r hs).2 l hlc
          exact ⟨w,he⟩
        rw [hclear r hs,run_removes hrun,if_pos hrm] at hm
        cases hm
    · simp only [Function.update_of_ne hsw] at hocc
      exact hocc

/-- What the loop of a clear makes of one VLAN, apart from the command it sends. -/
structure Cleared (n : Net) (sw : String) (set : VlanSet) (v : ℕ) : Prop where
  inUse : (set.vlans v).inUse = true → (n.set.vlans v).inUse = true ∧
    (set.vlans v).sessionID = (n.set.vlans v).sessionID
  free : v ∈ set.freeVlans → (set.vlans v).inUse = false
  unused : (set.vlans v).inUse = false → (set.vlans v).ports = []
  ports : ∀ p ∈ (set.vlans v).ports, p ∈ (n.set.vlans v).ports
  others : ∀ p ∈ (n.set.vlans v).ports, p.switchId ≠ sw →
    v ∉ set.freeVlans ∧ p ∈ (set.vlans v).ports
  stays : n.set.switchPorts sw v = [] → set.vlans v = n.set.vlans v ∧
    (v ∈ set.freeVlans ↔ v ∈ n.set.freeVlans)

theorem LoopSpec.cleared {l : List ℕ} {res : VlanSet × List Line × ℕ} (hv : Vlans n)
    (h : LoopSpec n sw l res) (v : ℕ) : Cleared n sw res.1 v := by
  have hused : n.set.switchPorts sw v ≠ [] → (n.set.vlans v).inUse = true := by
    intro hp
    obtain ⟨p,hp⟩ := List.exists_mem_of_ne_nil _ hp
    exact hv.inUse (List.mem_filter.mp hp).1
  by_cases hsame : v ∉ l ∨ n.set.switchPorts sw v = []
  · obtain ⟨he,hf⟩ := h.other v hsame
    constructor
    case inUse => exact fun hu => ⟨he ▸ hu,by rw [he]⟩
    case free =>
      rw [he,hf]
      exact hv.free v
    case unused =>
      rw [he]
      exact hv.unused v
    case ports =>
      rw [he]
      exact fun _ hp => hp
    case others =>
      intro p hp _
      rw [he,hf]
      refine ⟨fun hf => ?_,hp⟩
      have hu := hv.inUse hp
      rw [hv.free v hf] at hu
      cases hu
    case stays => exact fun _ => ⟨he,hf⟩
  · rw [not_or,not_not] at hsame
    have hu := hused hsame.2
    have hnf : v ∉ n.set.freeVlans := by
      intro hf
      rw [hv.free v hf] at hu
      cases hu
    by_cases ho : n.set.otherPorts sw v = []
    · obtain ⟨he,hf⟩ := h.freed v hsame.1 hsame.2 ho
      constructor
      case inUse =>
        rw [he]
        nofun
      case free =>
        rw [he]
        exact fun _ => rfl
      case unused =>
        rw [he]
        exact fun _ => rfl
      case ports =>
        rw [he]
        exact fun _ hp => absurd hp List.not_mem_nil
      case others =>
        intro p hp hps
        have hmem : p ∈ n.set.otherPorts sw v := List.mem_filter.mpr ⟨hp,by simp [hps]⟩
        rw [ho] at hmem
        cases hmem
      case stays => exact fun hp => absurd hp hsame.2
    · obtain ⟨he,hf⟩ := h.kept v hsame.1 hsame.2 ho
      constructor
      case inUse =>
        rw [he]
        exact fun hu => ⟨hu,rfl⟩
      case free =>
        rw [hf]
        exact fun hf => absurd hf hnf
      case unused =>
        rw [he]
        intro hu'
        rw [hu] at hu'
        cases hu'
      case ports =>
        rw [he]
        exact fun p hp => (List.mem_filter.mp hp).1
      case others =>
        intro p hp hps
        rw [hf,he]
        exact ⟨hnf,List.mem_filter.mpr ⟨hp,by simp [hps]⟩⟩
      case stays => exact fun hp => absurd hp hsame.2

/-- The VLAN set changes as a clear changes it, and the switch is told of every VLAN of it that
lost ports. -/
theorem Vlans.clears (hv : Vlans n) {set : VlanSet} {queue : String → List SwitchCmd}
    (hnodup : set.freeVlans.Nodup) (hset : ∀ v, Cleared n sw set v)
    (hother : ∀ sw', sw' ≠ sw → queue sw' = n.queue sw')
    (hadds : ∀ c ∈ queue sw, c ∈ n.queue sw ∨ ∀ v, c.adds v = [])
    (hocc : ∀ v, Occupied v (n.members sw v ≠ []) (queue sw) →
      n.Occupied sw v ∧ (sw ∈ n.ethSwitches → set.vlans v = n.set.vlans v ∧
        (v ∈ set.freeVlans ↔ v ∈ n.set.freeVlans))) :
    Vlans { n with set := set, queue := queue } := by
  constructor
  case nodup => exact hnodup
  case free => exact fun v hf => (hset v).free hf
  case unused => exact fun v hu => (hset v).unused hu
  case putBy =>
    intro v p hp
    have hold := (hset v).ports p hp
    have hu : (set.vlans v).inUse = true := by
      by_contra hu
      rw [(hset v).unused (Bool.eq_false_iff.mpr hu)] at hp
      cases hp
    rw [((hset v).inUse hu).2]
    exact hv.putBy v p hold
  case owner =>
    intro v
    obtain ⟨o,hm,ho⟩ := hv.owner v
    refine ⟨o,?_,fun hu => ?_⟩
    · intro sw' m hout
      by_cases hsw : sw' = sw
      · subst hsw
        rcases hout with hmem | ⟨c,hc,hadd⟩
        · exact hm sw' m (.inl hmem)
        · rcases hadds c hc with hc | hno
          · exact hm sw' m (.inr ⟨c,hc,hadd⟩)
          · rw [hno] at hadd
            cases hadd
      · unfold Net.Outstanding at hout
        simp only [hother sw' hsw] at hout
        exact hm sw' m hout
    · have h := (hset v).inUse hu
      exact (ho h.1).trans h.2.symm
  case occupied =>
    intro sw' v ho
    unfold Net.Occupied at ho
    simp only at ho
    by_cases hsw : sw' = sw
    · subst hsw
      obtain ⟨hold,hno⟩ := hocc v ho
      have h := hv.occupied sw' v hold
      rw [(hno h.2.1).1,(hno h.2.1).2]
      exact h
    · rw [hother sw' hsw] at ho
      obtain ⟨hf,heth,hport⟩ := hv.occupied sw' v ho
      by_cases hu : (n.set.vlans v).inUse = true
      · obtain ⟨p,hp,hps⟩ := hport hu
        have h := (hset v).others p hp (hps ▸ hsw)
        exact ⟨h.1,heth,fun _ => ⟨p,h.2,hps⟩⟩
      · -- a VLAN not in use has no ports to lose
        have hnil : n.set.switchPorts sw v = [] := by
          rw [VlanSet.switchPorts,hv.unused v (Bool.eq_false_iff.mpr hu),List.filter_nil]
        have hst := (hset v).stays hnil
        rw [hst.1,hst.2]
        exact ⟨hf,heth,fun hu' => absurd hu' hu⟩

theorem Vlans.clearSwitch (hv : Vlans n) (r : ℕ) (sw : String) :
    Vlans (n.clearSwitch r sw) := by
  have hspec := loopSpec_clearLoop n r sw
  have hcl := fun v => hspec.cleared hv v
  have hnodup := hspec.nodup hv.nodup
  unfold Net.clearSwitch
  simp only
  split
  · have hadd : ∀ v, SwitchCmd.adds ⟨.clear r,(n.clearLoop r sw).2.1⟩ v = [] := by
      refine adds_removes fun l hl => ?_
      obtain ⟨w,_,he⟩ := hspec.removes l hl
      exact ⟨w,he⟩
    refine hv.clears hnodup hcl ?_ ?_ ?_
    · exact fun sw' hsw => Function.update_of_ne hsw ..
    · intro c hc
      simp only [Function.update_self,List.mem_append,List.mem_singleton] at hc
      rcases hc with hc | rfl
      · exact .inl hc
      · exact .inr hadd
    · intro v ho
      simp only [Function.update_self] at ho
      rw [occupied_snoc,hadd] at ho
      refine ⟨ho.1.resolve_right fun h => h rfl,fun hsw => hspec.other v ?_⟩
      by_contra hno
      rw [not_or,not_not] at hno
      exact ho.2 r ⟨rfl,hspec.removed v hno.1 hno.2 hsw⟩
  · next hnum =>
    refine hv.clears hnodup hcl ?_ ?_ ?_
    · exact fun _ _ => rfl
    · exact fun c hc => .inl hc
    · refine fun v ho => ⟨ho,fun _ => hspec.other v ?_⟩
      by_contra hno
      rw [not_or,not_not] at hno
      exact hnum (hspec.ports v hno.1 hno.2)

theorem ports_clearIfEmptyVlan (s : VlanSet) (x v : ℕ) :
    ((s.clearIfEmptyVlan x).vlans v).ports = (s.vlans v).ports := by
  unfold VlanSet.clearIfEmptyVlan
  simp only
  split
  · rw [vlans_freeVlan]
    by_cases hv : v = x
    · subst hv
      simp [VlanSet.setVlan]
    · simp [VlanSet.setVlan,hv]
  · rfl

theorem nodup_clearIfEmptyVlan (h : s.freeVlans.Nodup) (x : ℕ) :
    (s.clearIfEmptyVlan x).freeVlans.Nodup := by
  unfold VlanSet.clearIfEmptyVlan
  simp only
  split
  · exact nodup_freeVlan (s := s.setVlan x _) h x
  · exact h

/-- The end of a clear frees VLANs without a port, and those are in no switch. -/
theorem Vlans.clearIfEmpty (hv : Vlans n) (r : ℕ) :
    Vlans { n with set := n.set.clearIfEmpty r } := by
  obtain ⟨l,hl⟩ : ∃ l, l = (n.set.object r).removedVlans := ⟨_,rfl⟩
  have hspec := empties_clearIfEmpty n.set l
  have hports : ∀ v, ((l.foldl VlanSet.clearIfEmptyVlan n.set).vlans v).ports =
      (n.set.vlans v).ports := by
    intro v
    refine List.foldlRecOn (motive := fun t : VlanSet => (t.vlans v).ports = (n.set.vlans v).ports) l _ rfl ?_
    exact fun t ht x _ => (ports_clearIfEmptyVlan t x v).trans ht
  have hnodup : (l.foldl VlanSet.clearIfEmptyVlan n.set).freeVlans.Nodup :=
    List.foldlRecOn (motive := fun t : VlanSet => t.freeVlans.Nodup) l _ hv.nodup
      fun t ht x _ => nodup_clearIfEmptyVlan ht x
  have hset : (n.set.clearIfEmpty r).vlans = (l.foldl VlanSet.clearIfEmptyVlan n.set).vlans ∧
      (n.set.clearIfEmpty r).freeVlans = (l.foldl VlanSet.clearIfEmptyVlan n.set).freeVlans := by
    subst hl
    exact ⟨rfl,rfl⟩
  -- a VLAN is freed here, or nothing about it has changed
  have hcases : ∀ v, ((n.set.vlans v).inUse = true ∧ (n.set.vlans v).ports = [] ∧
      ((n.set.clearIfEmpty r).vlans v).inUse = false) ∨
      ((n.set.clearIfEmpty r).vlans v = n.set.vlans v ∧
        (v ∈ (n.set.clearIfEmpty r).freeVlans ↔ v ∈ n.set.freeVlans)) := by
    intro v
    rw [hset.1,hset.2]
    by_cases h : v ∈ l ∧ (n.set.vlans v).inUse = true ∧ (n.set.vlans v).ports = []
    · exact .inl ⟨h.2.1,h.2.2,(hspec.freed v h.1 h.2.1 h.2.2).1⟩
    · refine .inr ⟨(hspec.other v h).1,?_⟩
      rw [hspec.mem]
      exact ⟨fun hm => hm.resolve_right h,.inl⟩
  constructor
  case nodup =>
    simp only [hset.2]
    exact hnodup
  case free =>
    intro v hf
    simp only at hf ⊢
    rcases hcases v with ⟨_,_,hu⟩ | ⟨he,hfr⟩
    · exact hu
    · rw [he]
      exact hv.free v (hfr.mp hf)
  case unused =>
    intro v hu
    simp only at hu ⊢
    rcases hcases v with ⟨_,hp,_⟩ | ⟨he,_⟩
    · rw [hset.1,hports,hp]
    · rw [he] at hu ⊢
      exact hv.unused v hu
  case putBy =>
    intro v p hp
    simp only at hp ⊢
    rcases hcases v with ⟨_,hnil,_⟩ | ⟨he,_⟩
    · rw [hset.1,hports,hnil] at hp
      cases hp
    · rw [he] at hp ⊢
      exact hv.putBy v p hp
  case owner =>
    intro v
    obtain ⟨o,hm,ho⟩ := hv.owner v
    refine ⟨o,hm,?_⟩
    simp only
    rcases hcases v with ⟨_,_,hu⟩ | ⟨he,_⟩
    · rw [hu]
      nofun
    · rw [he]
      exact ho
  case occupied =>
    intro sw v ho
    have h := hv.occupied sw v ho
    simp only
    rcases hcases v with ⟨hu,hnil,_⟩ | ⟨he,hfr⟩
    · obtain ⟨p,hp,_⟩ := h.2.2 hu
      rw [hnil] at hp
      cases hp
    · rw [he,hfr]
      exact h

theorem Vlans.step (hl : Locks n) (hv : Vlans n) (h : NetStep n e n') (hc : Orderly n e) :
    Vlans n' := by
  have hsub : n.ethSwitches ⊆ n.ethSwitches := fun _ h => h
  cases h with
  | addVlan => exact hv.addVlan hl _ hc _
  | deleteVlan => exact hv.same rfl rfl hsub rfl rfl rfl
  | addToVlan hr hp hu hsid => exact hv.addToVlan hu hsid _ _
  | addToVlanFails h => exact hv
  | startSession => exact hv.same rfl rfl hsub rfl rfl rfl
  | endSession => exact hv.same rfl rfl hsub rfl rfl rfl
  | initSwitches => exact hv.initSwitches hc
  | initVlans h => exact hv.initVlans _
  | @enter r call hw hj =>
    have hv' : Vlans { n with waiting := n.waiting.erase (r,call) } :=
      hv.same rfl rfl hsub rfl rfl rfl
    exact hv'.perform r call
  | createSwitch hj => exact (hv.createSwitch _ _).same rfl rfl hsub rfl rfl rfl
  | clearSwitch hj => exact (hv.clearSwitch _ _).same rfl rfl (fun _ h => h) rfl rfl rfl
  | created hj hq => exact hv.same rfl rfl hsub rfl rfl rfl
  | cleared hj hq => exact (hv.clearIfEmpty _).same rfl rfl hsub rfl rfl rfl
  | removeSession h => exact hv.same rfl rfl hsub rfl rfl rfl
  | execute hq => exact hv.popped hl hq (fun _ h => h) (fun _ _ => rfl)
  | fail hq hlines =>
    refine hv.popped hl hq hlines.subset fun r hs => ?_
    exact absurd hs (hc _ (by rw [hq]; rfl) r)

/-! ### Runs -/

theorem inv_new (numVlans : ℕ) : Locks (Net.new numVlans) ∧ Vlans (Net.new numVlans) := by
  refine ⟨⟨?_,nofun,nofun,nofun,nofun⟩,⟨?_,?_,?_,?_,?_,?_⟩⟩
  · intro r
    exact ⟨nofun,fun ⟨todo,h⟩ => by cases h⟩
  · exact List.nodup_range'
  · exact fun _ _ => rfl
  · exact fun _ _ => rfl
  · nofun
  · intro v
    refine ⟨"",?_,fun hu => by cases hu⟩
    intro sw m hm
    rcases hm with hm | ⟨c,hc,_⟩
    · cases hm
    · cases hc
  · intro sw v ho
    exact absurd rfl ho

@[simp] theorem perform_queue (n : Net) (r : ℕ) (call : Call) :
    (n.perform r call).queue = n.queue := by
  cases call with
  | createVlans =>
    unfold Net.perform
    simp only
    split
    · rfl
    · rfl
  | clearSession =>
    unfold Net.perform
    simp only
    split
    · rfl
    · rfl
  | _ => rfl

@[simp] theorem clearSwitch_queue {sw' : String} (h : sw' ≠ sw) (n : Net) (r : ℕ) :
    (n.clearSwitch r sw).queue sw' = n.queue sw' := by
  unfold Net.clearSwitch
  simp only
  split
  · exact Function.update_of_ne h ..
  · rfl

end OnlDaemons.Nmd
