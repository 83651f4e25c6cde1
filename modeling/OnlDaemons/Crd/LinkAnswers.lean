import OnlDaemons.Crd.LinkMoves
import OnlDaemons.Lib.Run

/-!
# Every link request is answered

A session whose links have all reported completes them. One link that ends by itself keeps all that
wait for it waiting, and a link that does not start is not heard of again.

## Main definitions

- `LinkSession.OnCourse` — every link can still be answered
- `LinkSession.Doomed` — some link will not be answered

## Main result

- `answered_iff_orderly` — when no thread is running, every link is answered exactly once iff every
  step was orderly
-/

namespace OnlDaemons.Crd

open OnlDaemons.Lib

namespace LinkSession

variable {L C : Type} [DecidableEq L] {testing : Bool} {s t : LinkSession L C} {ok : Prop}

/-! ### The invariant -/

/-- A link is the same, or has gone on without the session. -/
structure Onward (l l' : CrdLink) : Prop where
  before : l.Unstarted ∨ l.Busy → l'.Unstarted ∨ l'.Busy ∨ l'.Done
  waits : l.Waits → l'.Waits
  done : l.Done → l'.Done

theorem onward_same {l l' : CrdLink} (h : l.Same l') : Onward l l' :=
  ⟨fun hb => hb.elim (fun hu => .inl (h.unstarted hu)) fun hb => .inr (.inl (h.busy hb)),
    h.waits,h.done⟩

theorem onward_of_unstarted {l l' : CrdLink} (h : l.Unstarted)
    (h' : l'.Unstarted ∨ l'.Busy ∨ l'.Done) : Onward l l' := by
  refine ⟨fun _ => h',fun hw => ?_,fun hd => ?_⟩
  · rcases h.state with hs | hs
    · cases hs.symm.trans hw.state
    · cases hs.symm.trans hw.state
  · cases h.linkreq.symm.trans hd.linkreq

theorem onward_of_busy {l l' : CrdLink} (h : l.Busy) (h' : l'.Done) : Onward l l' :=
  ⟨fun _ => .inr (.inr h'),fun hw => absurd hw.thread h.thread,fun hd => absurd hd.thread h.thread⟩

theorem todo_congr (h : t.pending = s.pending) (l : L) : t.todo l = s.todo l := by
  rw [todo,todo,h]

theorem Inv.mem_of_todo (h : s.Inv) {l : L} (hl : 0 < s.todo l) : l ∈ s.links := by
  obtain ⟨p,hp,hpl⟩ := List.countP_pos_iff.mp hl
  have := h.pending p hp
  simp only [decide_eq_true_eq] at hpl
  rwa [hpl] at this

omit [DecidableEq L] in
theorem Stage.onward {l : L} (h : s.Stage l) (hun : t.unreported = s.unreported)
    (ho : Onward (s.link l) (t.link l)) : t.Stage l := by
  rcases h with ⟨hb,hl⟩ | ⟨hw,hl⟩ | hd
  · rcases ho.before hb with hu | hb | hd
    · exact .inl ⟨.inl hu,hun ▸ hl⟩
    · exact .inl ⟨.inr hb,hun ▸ hl⟩
    · exact .inr (.inr hd)
  · exact .inr (.inl ⟨ho.waits hw,hun ▸ hl⟩)
  · exact .inr (.inr (ho.done hd))

theorem Completed.onward (h : s.Inv) (hf : Frame s t)
    (ho : ∀ l ∈ s.links, Onward (s.link l) (t.link l)) : t.Completed := by
  have hc := h.completed
  rw [Completed] at hc ⊢
  rw [hf.completion]
  cases hcomp : s.completion with
  | none =>
    rw [hcomp] at hc
    obtain ⟨hv,hst,hne,hd⟩ := hc
    refine ⟨hf.vlansCreated.trans hv,hf.starts.trans hst,?_,fun l hl hdone => ?_⟩
    · rw [hf.links,hf.unreported]
      exact hne
    · rw [hf.links] at hl
      rw [hf.unreported]
      rcases h.stage l hl with ⟨_,hun⟩ | ⟨hw,_⟩ | hdone'
      · exact hun
      · exact absurd ((ho l hl).waits hw).state hdone.state.2
      · exact hd l hl hdone'
  | start =>
    rw [hcomp] at hc
    obtain ⟨hv,hst,hne,hw⟩ := hc
    refine ⟨hf.vlansCreated.trans hv,hf.starts.trans hst,hf.unreported.trans hne,fun l hl => ?_⟩
    rw [hf.links] at hl
    exact (ho l hl).waits (hw l hl)
  | links status rest =>
    rw [hcomp] at hc
    obtain ⟨hv,hst,hne,hnd,hw⟩ := hc
    refine ⟨hf.vlansCreated.trans hv,hf.starts.trans hst,hf.unreported.trans hne,hnd,fun l hl => ?_⟩
    rw [hf.links] at hl
    have := hw l hl
    by_cases hr : l ∈ rest
    · rw [if_pos hr] at this ⊢
      exact (ho l hl).waits this
    · rw [if_neg hr] at this ⊢
      exact (ho l hl).done this

/-- The invariant is kept by what the session does not take part in. -/
theorem Inv.onward (h : s.Inv) (hf : Frame s t) (hp : ∀ p ∈ t.pending, p ∈ s.pending)
    (ho : ∀ l ∈ s.links, Onward (s.link l) (t.link l))
    (hcount : ∀ l ∈ s.links,
      (t.link l).numCompsDone + t.todo l ≤ (s.link l).numCompsDone + s.todo l)
    (hnew : ∀ l ∈ s.links, (t.link l).state = .new → (t.link l).numCompsDone < 2)
    (hstarted : ∀ l ∈ s.links, (t.link l).Unstarted ∨ (t.link l).numCompsDone = 2)
    (hout : ∀ l ∉ s.links, t.link l = s.link l) : t.Inv where
  nodup := hf.links ▸ h.nodup
  pending p hpt := hf.links ▸ h.pending p (hp p hpt)
  unreported l hl := hf.links ▸ h.unreported l (hf.unreported ▸ hl)
  clearing l hl := by
    rw [hf.links]
    exact (hf.clearing l hl).elim (h.clearing l) id
  rest status rest hc := hf.links ▸ h.rest status rest (hf.completion ▸ hc)
  count l hl := by
    rw [hf.links] at hl
    exact Nat.le_trans (hcount l hl) (h.count l hl)
  new := hf.links ▸ hnew
  started := hf.links ▸ hstarted
  outside l hl := by
    rw [hf.links] at hl
    rw [hout l hl]
    exact h.outside l hl
  stage l hl := (h.stage l (hf.links ▸ hl)).onward hf.unreported (ho l (hf.links ▸ hl))
  completed := .onward h hf ho

/-- The same where one link has changed. -/
theorem Inv.onward_at (h : s.Inv) (hf : Frame s t) (hp : ∀ p ∈ t.pending, p ∈ s.pending) {l : L}
    (hl : l ∈ s.links) (ho : Onward (s.link l) (t.link l))
    (hcount : (t.link l).numCompsDone + t.todo l ≤ (s.link l).numCompsDone + s.todo l)
    (hnew : (t.link l).state = .new → (t.link l).numCompsDone < 2)
    (hstarted : (t.link l).Unstarted ∨ (t.link l).numCompsDone = 2)
    (htodo : ∀ m, m ≠ l → t.todo m ≤ s.todo m) (hother : ∀ m, m ≠ l → t.link m = s.link m) :
    t.Inv := by
  refine h.onward hf hp (fun m hm => ?_) (fun m hm => ?_) (fun m hm => ?_) (fun m hm => ?_)
    fun m hm => hother m fun he => hm (by rwa [he])
  all_goals by_cases hml : m = l
  · rwa [hml]
  · rw [hother m hml]
    exact onward_same .rfl
  · rwa [hml]
  · rw [hother m hml]
    exact Nat.add_le_add_left (htodo m hml) _
  · rwa [hml]
  · rw [hother m hml]
    exact h.new m hm
  · rwa [hml]
  · rw [hother m hml]
    exact h.started m hm

theorem Visited.todo_self {l : L} (h : Visited s t l) : s.todo l = t.todo l + 1 := by
  rw [h.todo l,if_pos rfl]

theorem Visited.todo_other {l m : L} (h : Visited s t l) (hm : m ≠ l) : s.todo m = t.todo m := by
  rw [h.todo m,if_neg hm,Nat.add_zero]

theorem Inv.mem_of_visited (h : s.Inv) {l : L} (hv : Visited s t l) : l ∈ s.links :=
  h.mem_of_todo (by rw [hv.todo_self]; omega)

/-- A link that a component comes to. -/
theorem Inv.visited (h : s.Inv) (hf : Frame s t) {l : L} (hv : Visited s t l)
    (ho : Onward (s.link l) (t.link l))
    (hcount : (t.link l).numCompsDone = (s.link l).numCompsDone + 1)
    (hnew : (t.link l).state = .new → (t.link l).numCompsDone < 2)
    (hstarted : (t.link l).Unstarted ∨ (t.link l).numCompsDone = 2) : t.Inv := by
  have hself := hv.todo_self
  exact h.onward_at hf hv.pending (h.mem_of_visited hv) ho (by omega) hnew hstarted
    (fun m hm => Nat.le_of_eq (hv.todo_other hm).symm) hv.other

theorem todo_le (h : t.pending.Sublist s.pending) (l : L) : t.todo l ≤ s.todo l :=
  h.countP_le

theorem Inv.mem_unreported (h : s.Inv) {l : L} (hb : (s.link l).Busy) : l ∈ s.unreported := by
  rcases h.stage l (h.mem_of_thread hb.thread) with ⟨_,hun⟩ | ⟨hw,_⟩ | hd
  · exact hun
  · exact absurd hw.thread hb.thread
  · exact absurd hd.thread hb.thread

theorem Inv.unstarted_unreported (h : s.Inv) {l : L} (hl : l ∈ s.links)
    (hu : (s.link l).Unstarted) : l ∈ s.unreported := by
  rcases h.stage l hl with ⟨_,hun⟩ | ⟨hw,_⟩ | hd
  · exact hun
  · rcases hu.state with he | he <;> cases he.symm.trans hw.state
  · cases hu.linkreq.symm.trans hd.linkreq

theorem Inv.two (h : s.Inv) {l : L} (hl : l ∈ s.links) (hn : ¬(s.link l).Unstarted) :
    (s.link l).numCompsDone = 2 := (h.started l hl).resolve_left hn

/-- A link reports, and the last one to do so finds all links waiting. -/
theorem Completed.report (h : s.Inv) {l : L} (hb : (s.link l).Busy) (hw : (t.link l).Waits)
    (ho : ∀ m, m ≠ l → t.link m = s.link m) (hlinks : t.links = s.links)
    (hstarts : t.starts = s.starts) (hun : t.unreported = s.unreported.filter (· ≠ l))
    (hc : if t.unreported = [] ∧ s.vlansCreated = false then
      t.completion = .start ∧ t.vlansCreated = true
      else t.completion = s.completion ∧ t.vlansCreated = s.vlansCreated) : t.Completed := by
  have hlun := h.mem_unreported hb
  have hcs := h.completed
  rw [Completed] at hcs
  cases hcomp : s.completion with
  | start =>
    rw [hcomp] at hcs
    rw [hcs.2.2.1] at hlun
    cases hlun
  | links status rest =>
    rw [hcomp] at hcs
    rw [hcs.2.2.1] at hlun
    cases hlun
  | none =>
    rw [hcomp] at hcs
    obtain ⟨hv,hst,hne,hd⟩ := hcs
    -- who is done has not reported
    have hdone : ∀ m ∈ s.links, (t.link m).Done → m ∈ t.unreported := by
      intro m hm hdm
      have hml : m ≠ l := by
        intro he
        rw [he] at hdm
        exact hdm.state.2 hw.state
      rw [ho m hml] at hdm
      rw [hun]
      exact List.mem_filter.mpr ⟨hd m hm hdm,by simpa using hml⟩
    by_cases hempty : t.unreported = []
    · rw [if_pos ⟨hempty,hv⟩] at hc
      rw [Completed,hc.1]
      refine ⟨hc.2,hstarts.trans hst,hempty,fun m hm => ?_⟩
      rw [hlinks] at hm
      by_cases hml : m = l
      · rwa [hml]
      rw [ho m hml]
      rcases h.stage m hm with ⟨_,hmun⟩ | ⟨hwm,_⟩ | hdm
      · have : m ∈ t.unreported := by
          rw [hun]
          exact List.mem_filter.mpr ⟨hmun,by simpa using hml⟩
        rw [hempty] at this
        cases this
      · exact hwm
      · have := hdone m hm (by rwa [ho m hml])
        rw [hempty] at this
        cases this
    · rw [if_neg fun hand => hempty hand.1] at hc
      rw [Completed,hc.1,hcomp]
      refine ⟨hc.2.trans hv,hstarts.trans hst,fun _ => hempty,fun m hm => ?_⟩
      exact hdone m (hlinks ▸ hm)

theorem Inv.move (h : s.Inv) (hm : Move s t ok) : t.Inv := by
  cases hm with
  | still hf hp hl ho =>
    refine h.onward hf (fun p hpt => hp ▸ hpt) (fun l hm => onward_same (hl l hm)) ?_ ?_ ?_ ho
    · intro l hm
      exact Nat.le_of_eq (by rw [(hl l hm).numCompsDone,todo_congr hp])
    · intro l hm hs
      rw [(hl l hm).numCompsDone]
      exact h.new l hm ((hl l hm).state.mp hs)
    · intro l hm
      rw [(hl l hm).numCompsDone]
      exact (h.started l hm).imp_left (hl l hm).unstarted
  | spoil hf hp l hm hu ht hr hn ho =>
    refine h.onward_at hf (fun p hpt => hp ▸ hpt) hm (onward_of_unstarted hu (.inl ht)) ?_ ?_ (.inl ht)
      (fun m _ => Nat.le_of_eq (todo_congr hp m)) ho
    · exact Nat.le_of_eq (by rw [hn,todo_congr hp])
    · rw [hr]
      exact nofun
  | drop hf hl hp l hlost =>
    refine h.onward hf (fun p hpt => hp.subset hpt) (fun m _ => onward_same (hl ▸ .rfl)) ?_ ?_ ?_
      fun m _ => by rw [hl]
    · intro m _
      rw [hl]
      exact Nat.add_le_add_left (todo_le hp m) _
    · rw [hl]
      exact h.new
    · rw [hl]
      exact h.started
  | arrive hf l hv hn ht =>
    have hl := h.mem_of_visited hv
    have hself := hv.todo_self
    have hcount := h.count l hl
    have hon : Onward (s.link l) (t.link l) := by
      rw [ht]
      exact ⟨fun hb => hb.elim (fun hu => .inl ⟨hu.state,hu.linkreq,hu.answers,hu.thread⟩)
        fun hb => .inr (.inl ⟨hb.state,hb.linkreq,hb.answers,hb.thread⟩),
        fun hw => ⟨hw.state,hw.linkreq,hw.answers,hw.thread⟩,
        fun hd => ⟨hd.state,hd.linkreq,hd.answers,hd.thread⟩⟩
    refine h.visited hf hv hon (by rw [ht]) ?_ ?_
    · rw [ht]
      intro hs
      have := hn hs
      have := h.new l hl hs
      dsimp only
      omega
    · rcases h.started l hl with hu | htwo
      · rw [ht]
        exact .inl ⟨hu.state,hu.linkreq,hu.answers,hu.thread⟩
      · omega
  | begin hf l hv hu hnew hn ht ht' =>
    refine h.visited hf hv (onward_of_unstarted hu (.inr (.inl ht))) (by omega) ?_ (.inr ht')
    rw [ht.state]
    exact nofun
  | fail hf l hv hu hnew hn ht ht' =>
    exact h.visited hf hv (onward_of_unstarted hu (.inr (.inr ht))) (by omega)
      (fun hs => absurd hs ht.state.1) (.inr ht')
  | alone hf hp l hb hd hn ho =>
    have hl := h.mem_of_thread hb.thread
    refine h.onward_at hf (fun p hpt => hp ▸ hpt) hl (onward_of_busy hb hd) ?_
      (fun hs => absurd hs hd.state.1) (.inr ?_) (fun m _ => Nat.le_of_eq (todo_congr hp m)) ho
    · exact Nat.le_of_eq (by rw [hn,todo_congr hp])
    · rw [hn]
      exact h.two hl fun hu => hb.thread hu.thread
  | report l hb hw hn ho hp hlinks hclear hstarts hun hc =>
    have hl := h.mem_of_thread hb.thread
    have hsub : ∀ m ∈ t.unreported, m ∈ s.unreported := by
      rw [hun]
      exact fun m hm => (List.mem_filter.mp hm).1
    have hnew : (s.link l).state ≠ .new := by
      rw [hb.state]
      exact nofun
    have htwo := h.two hl fun hu => hb.thread hu.thread
    have hcompl := Completed.report h hb hw ho hlinks hstarts hun hc
    refine ⟨hlinks ▸ h.nodup,?_,?_,?_,?_,?_,?_,?_,?_,?_,hcompl⟩
    · rw [hp,hlinks]
      exact h.pending
    · rw [hlinks]
      exact fun m hm => h.unreported m (hsub m hm)
    · rw [hclear,hlinks]
      exact h.clearing
    · intro status rest hcomp
      split at hc
      · cases hc.1.symm.trans hcomp
      · rw [hlinks]
        exact h.rest status rest (hc.1.symm.trans hcomp)
    all_goals
      intro m hm
      rw [hlinks] at hm
      by_cases hml : m = l
    · rw [hml,hn,todo_congr hp]
      exact h.count l hl
    · rw [ho m hml,todo_congr hp]
      exact h.count m hm
    · rw [hml,hw.state]
      exact nofun
    · rw [ho m hml]
      exact h.new m hm
    · rw [hml,hn]
      exact .inr htwo
    · rw [ho m hml]
      exact h.started m hm
    · rw [hml]
      exact hw.thread
    · rw [ho m hml]
      exact h.outside m hm
    · rw [hml]
      exact .inr (.inl ⟨hw,by simp [hun]⟩)
    · rw [Stage,ho m hml]
      have hiff : m ∈ t.unreported ↔ m ∈ s.unreported := by simp [hun,hml]
      rw [hiff]
      exact h.stage m hm
  | start status hs ht =>
    have hcs := h.completed
    rw [Completed,hs] at hcs
    obtain ⟨hv,hst,hne,hw⟩ := hcs
    subst ht
    refine { h with rest := ?_, completed := ?_ }
    · intro status rest he
      cases he
      exact fun _ => id
    · refine ⟨hv,congrArg (· + 1) hst,hne,h.nodup,fun l hl => ?_⟩
      rw [if_pos hl]
      exact hw l hl
  | finish status l rest hs hd hn ht ho =>
    have hcs := h.completed
    rw [Completed,hs] at hcs
    obtain ⟨hv,hst,hne,hnd,hw⟩ := hcs
    have hl : l ∈ s.links := h.rest _ _ hs l (by simp)
    have hwl := hw l hl
    rw [if_pos (by simp)] at hwl
    have hdone := hd hwl
    have hnum := hn hwl
    have htwo := h.two hl fun hu => by
      rcases hu.state with he | he
      · cases he.symm.trans hwl.state
      · cases he.symm.trans hwl.state
    rw [ht]
    refine ⟨h.nodup,h.pending,h.unreported,h.clearing,?_,?_,?_,?_,?_,?_,?_⟩
    · intro status' rest' he
      cases he
      exact fun m hm => h.rest _ _ hs m (List.mem_cons_of_mem _ hm)
    rotate_right
    · refine ⟨hv,hst,hne,(List.nodup_cons.mp hnd).2,fun m hm => ?_⟩
      by_cases hml : m = l
      · rw [hml,if_neg (List.nodup_cons.mp hnd).1]
        exact hdone
      · have := hw m hm
        simp only [List.mem_cons,hml,false_or] at this
        dsimp only
        rwa [ho m hml]
    all_goals
      intro m hm
      by_cases hml : m = l
    · rw [hml,hnum]
      exact h.count l hl
    · rw [ho m hml]
      exact h.count m hm
    · rw [hml]
      exact fun he => absurd he hdone.state.1
    · rw [ho m hml]
      exact h.new m hm
    · rw [hml,hnum]
      exact .inr htwo
    · rw [ho m hml]
      exact h.started m hm
    · rw [hml]
      exact hdone.thread
    · rw [ho m hml]
      exact h.outside m hm
    · rw [hml]
      exact .inr (.inr hdone)
    · rw [Stage,ho m hml]
      exact h.stage m hm

/-! ### Runs -/

theorem Inv.linkreq (h : s.Inv) {l : L} (hl : l ∈ s.links) (hn : ¬(s.link l).Done) :
    (s.link l).linkreq = true := by
  rcases h.stage l hl with ⟨hu | hb,_⟩ | ⟨hw,_⟩ | hd
  · exact hu.linkreq
  · exact hb.linkreq
  · exact hw.linkreq
  · exact absurd hd hn

theorem Inv.done (h : s.Inv) {l : L} (hl : l ∈ s.links) (hq : (s.link l).linkreq = false) :
    (s.link l).Done := by
  by_contra hn
  cases hq.symm.trans (h.linkreq hl hn)

theorem of_unstarted {l l' : CrdLink} (h : l.Same l')
    (hst : l.Unstarted ∨ l.Busy ∨ l.Waits ∨ l.Done) (hu : l'.Unstarted) : l.Unstarted := by
  rcases hst with hu' | hb | hw | hd
  · exact hu'
  · exact absurd hu.thread (h.busy hb).thread
  · rcases hu.state with he | he
    · cases he.symm.trans (h.waits hw).state
    · cases he.symm.trans (h.waits hw).state
  · cases hu.linkreq.symm.trans (h.done hd).linkreq

/-- Every link that has not started will be, and either all links end through the session or all
that have reported have ended. -/
structure OnCourse (s : LinkSession L C) : Prop where
  unstarted : ∀ l ∈ s.links, (s.link l).Unstarted →
    (s.link l).state = .new ∧ (s.link l).numCompsDone + s.todo l = 2
  together : (∀ l ∈ s.unreported, (s.link l).linkreq = true) ∨
    ∀ l ∈ s.links, l ∉ s.unreported → (s.link l).linkreq = false

/-- A link that will not start. -/
structure Lost (s : LinkSession L C) (l : L) : Prop where
  mem : l ∈ s.links
  unstarted : (s.link l).Unstarted
  hopeless : (s.link l).state = .refreshing ∨ (s.link l).numCompsDone + s.todo l < 2

/-- `a` has ended without a report, and `b` waits for all reports. -/
structure Stuck (s : LinkSession L C) (a b : L) : Prop where
  unreported : a ∈ s.unreported
  ended : (s.link a).linkreq = false
  mem : b ∈ s.links
  reported : b ∉ s.unreported
  waits : (s.link b).linkreq = true

def Doomed (s : LinkSession L C) : Prop := (∃ l, s.Lost l) ∨ ∃ a b, s.Stuck a b

theorem Inv.waits_of_finish (h : s.Inv) {status : NccpStatus} {l : L} {rest : List L}
    (hs : s.completion = .links status (l :: rest)) :
    l ∈ s.links ∧ s.unreported = [] ∧ (s.link l).Waits := by
  have hl := h.rest _ _ hs l (by simp)
  have hcs := h.completed
  rw [Completed,hs] at hcs
  obtain ⟨_,_,hne,_,hw⟩ := hcs
  have hwl := hw l hl
  rw [if_pos (by simp)] at hwl
  exact ⟨hl,hne,hwl⟩

/-- A lost link stays lost. -/
theorem Lost.move {l : L} (hlost : s.Lost l) (h : s.Inv) (hm : Move s t ok) : t.Lost l := by
  obtain ⟨hl,hu,hno⟩ := hlost
  have same : t.links = s.links → t.link l = s.link l → t.todo l ≤ s.todo l → t.Lost l := by
    intro hlinks he htodo
    refine ⟨hlinks ▸ hl,he ▸ hu,?_⟩
    rw [he]
    exact hno.imp_right fun hlt => by omega
  have busy : ∀ m, ¬(s.link m).Unstarted → l ≠ m := by
    intro m hm he
    exact hm (he ▸ hu)
  cases hm with
  | still hf hp hs ho =>
    refine ⟨hf.links ▸ hl,(hs l hl).unstarted hu,?_⟩
    rw [(hs l hl).numCompsDone,todo_congr hp]
    refine hno.imp_left fun hr => ((hs l hl).unstarted hu).state.resolve_left fun hnew => ?_
    cases ((hs l hl).state.mp hnew).symm.trans hr
  | spoil hf hp l' hm hu' ht hr hn ho =>
    by_cases hll : l = l'
    · rw [hll] at hl ⊢
      exact ⟨hf.links ▸ hl,ht,.inl hr⟩
    · exact same hf.links (ho l hll) (Nat.le_of_eq (todo_congr hp l))
  | drop hf hl' hp l' hlt => exact same hf.links (by rw [hl']) (todo_le hp l)
  | arrive hf l' hv hn ht =>
    by_cases hll : l = l'
    · subst hll
      have := hv.todo_self
      refine ⟨hf.links ▸ hl,?_,?_⟩
      · rw [ht]
        exact ⟨hu.state,hu.linkreq,hu.answers,hu.thread⟩
      · rw [ht]
        exact hno.imp_right fun hlt => by dsimp only; omega
    · exact same hf.links (hv.other l hll) (Nat.le_of_eq (hv.todo_other hll).symm)
  | begin hf l' hv hu' hnew hn ht ht' =>
    have := hv.todo_self
    refine same hf.links (hv.other l ?_) (by rw [hv.todo l]; omega)
    rintro rfl
    rcases hno with hr | hlt
    · cases hr.symm.trans hnew
    · omega
  | fail hf l' hv hu' hnew hn ht ht' =>
    have := hv.todo_self
    refine same hf.links (hv.other l ?_) (by rw [hv.todo l]; omega)
    rintro rfl
    rcases hno with hr | hlt
    · cases hr.symm.trans hnew
    · omega
  | alone hf hp l' hb hd hn ho =>
    exact same hf.links (ho l (busy l' fun hu => hb.thread hu.thread)) (Nat.le_of_eq (todo_congr hp l))
  | report l' hb hw hn ho hp hlinks hclear hstarts hun hc =>
    exact same hlinks (ho l (busy l' fun hu => hb.thread hu.thread)) (Nat.le_of_eq (todo_congr hp l))
  | start status hs ht =>
    rw [ht]
    exact ⟨hl,hu,hno⟩
  | finish status l' rest hs hd hn ht ho =>
    obtain ⟨_,_,hw⟩ := h.waits_of_finish hs
    have hne := busy l' fun hu => by
      rcases hu.state with he | he <;> cases he.symm.trans hw.state
    have htodo : t.todo l = s.todo l := todo_congr (by rw [ht]) l
    exact same (by rw [ht]) (ho l hne) (Nat.le_of_eq htodo)

/-- A link that waits for one that has ended goes on waiting. -/
theorem Stuck.move {a b : L} (hst : s.Stuck a b) (h : s.Inv) (hm : Move s t ok) : t.Stuck a b := by
  obtain ⟨hun,hend,hb,hrep,hwait⟩ := hst
  have ha := h.unreported a hun
  have same : t.links = s.links → t.unreported = s.unreported →
      (t.link a).linkreq = (s.link a).linkreq → (t.link b).linkreq = (s.link b).linkreq →
      t.Stuck a b := by
    intro hlinks hunr hea heb
    exact ⟨hunr ▸ hun,hea.trans hend,hlinks ▸ hb,hunr ▸ hrep,heb.trans hwait⟩
  have other : ∀ m, (s.link m).linkreq = true → m ∈ s.unreported → a ≠ m ∧ b ≠ m := by
    refine fun m hq hmun => ⟨fun he => ?_,fun he => hrep (he ▸ hmun)⟩
    rw [he] at hend
    cases hend.symm.trans hq
  cases hm with
  | still hf hp hs ho => exact same hf.links hf.unreported (hs a ha).linkreq (hs b hb).linkreq
  | spoil hf hp l hm hu ht hr hn ho =>
    have hq : ∀ m, (t.link m).linkreq = (s.link m).linkreq := by
      intro m
      by_cases hml : m = l
      · rw [hml,ht.linkreq,hu.linkreq]
      · rw [ho m hml]
    exact same hf.links hf.unreported (hq a) (hq b)
  | drop hf hl hp l hlt => exact same hf.links hf.unreported (by rw [hl]) (by rw [hl])
  | arrive hf l hv hn ht =>
    have hq : ∀ m, (t.link m).linkreq = (s.link m).linkreq := by
      intro m
      by_cases hml : m = l
      · rw [hml,ht]
      · rw [hv.other m hml]
    exact same hf.links hf.unreported (hq a) (hq b)
  | begin hf l hv hu hnew hn ht ht' =>
    obtain ⟨hal,hbl⟩ := other l hu.linkreq (h.unstarted_unreported (h.mem_of_visited hv) hu)
    exact same hf.links hf.unreported (by rw [hv.other a hal]) (by rw [hv.other b hbl])
  | fail hf l hv hu hnew hn ht ht' =>
    obtain ⟨hal,hbl⟩ := other l hu.linkreq (h.unstarted_unreported (h.mem_of_visited hv) hu)
    exact same hf.links hf.unreported (by rw [hv.other a hal]) (by rw [hv.other b hbl])
  | alone hf hp l hbusy hd hn ho =>
    obtain ⟨hal,hbl⟩ := other l hbusy.linkreq (h.mem_unreported hbusy)
    exact same hf.links hf.unreported (by rw [ho a hal]) (by rw [ho b hbl])
  | report l hbusy hw hn ho hp hlinks hclear hstarts hunr hc =>
    obtain ⟨hal,hbl⟩ := other l hbusy.linkreq (h.mem_unreported hbusy)
    refine ⟨?_,by rwa [ho a hal],hlinks ▸ hb,?_,by rwa [ho b hbl]⟩
    · rw [hunr]
      exact List.mem_filter.mpr ⟨hun,by simpa using hal⟩
    · rw [hunr]
      exact fun hm => hrep (List.mem_filter.mp hm).1
  | start status hs ht =>
    rw [ht]
    exact ⟨hun,hend,hb,hrep,hwait⟩
  | finish status l rest hs hd hn ht ho =>
    rw [(h.waits_of_finish hs).2.1] at hun
    cases hun

/-- The visits a link that has started has to come are over. -/
theorem Inv.unstarted_of_todo (h : s.Inv) {l : L} (hl : 0 < s.todo l) : (s.link l).Unstarted := by
  have hm := h.mem_of_todo hl
  have := h.count l hm
  exact (h.started l hm).resolve_right fun htwo => by omega

theorem doomed_of_not (h : s.Inv) (hm : Move s t ok) (hok : ¬ok) : t.Doomed := by
  cases hm with
  | still hf hp hs ho => exact absurd trivial hok
  | spoil hf hp l hm hu ht hr hn ho => exact .inl ⟨l,hf.links ▸ hm,ht,.inl hr⟩
  | drop hf hl hp l hlt =>
    have hm := h.mem_of_todo (Nat.zero_lt_of_lt hlt)
    have hcount := h.count l hm
    refine .inl ⟨l,hf.links ▸ hm,?_,.inr ?_⟩
    · rw [hl]
      exact h.unstarted_of_todo (Nat.zero_lt_of_lt hlt)
    · rw [hl]
      omega
  | arrive hf l hv hn ht => exact absurd trivial hok
  | begin hf l hv hu hnew hn ht ht' => exact absurd trivial hok
  | fail hf l hv hu hnew hn ht ht' =>
    have hun := h.unstarted_unreported (h.mem_of_visited hv) hu
    push Not at hok
    obtain ⟨b,hb,hrep,hq⟩ := hok
    have hbl : b ≠ l := fun he => hrep (he ▸ hun)
    refine .inr ⟨l,b,hf.unreported ▸ hun,ht.linkreq,hf.links ▸ hb,hf.unreported ▸ hrep,?_⟩
    rw [hv.other b hbl]
    simpa using hq
  | alone hf hp l hbusy hd hn ho =>
    have hun := h.mem_unreported hbusy
    push Not at hok
    obtain ⟨b,hb,hrep,hq⟩ := hok
    have hbl : b ≠ l := fun he => hrep (he ▸ hun)
    refine .inr ⟨l,b,hf.unreported ▸ hun,hd.linkreq,hf.links ▸ hb,hf.unreported ▸ hrep,?_⟩
    rw [ho b hbl]
    simpa using hq
  | report l hbusy hw hn ho hp hlinks hclear hstarts hunr hc =>
    push Not at hok
    obtain ⟨a,ha,hq⟩ := hok
    have hal : a ≠ l := by
      rintro rfl
      exact hq hbusy.linkreq
    refine .inr ⟨a,l,?_,?_,hlinks ▸ h.mem_of_thread hbusy.thread,?_,hw.linkreq⟩
    · rw [hunr]
      exact List.mem_filter.mpr ⟨ha,by simpa using hal⟩
    · rw [ho a hal]
      simpa using hq
    · simp [hunr]
  | start status hs ht => exact absurd trivial hok
  | finish status l rest hs hd hn ht ho => exact absurd trivial hok

theorem Doomed.move (hd : s.Doomed) (h : s.Inv) (hm : Move s t ok) : t.Doomed := by
  rcases hd with ⟨l,hl⟩ | ⟨a,b,hst⟩
  · exact .inl ⟨l,hl.move h hm⟩
  · exact .inr ⟨a,b,hst.move h hm⟩

theorem OnCourse.move (hg : s.OnCourse) (h : s.Inv) (hm : Move s t ok) (hok : ok) :
    t.OnCourse := by
  have others : ∀ l, (∀ m, m ≠ l → t.link m = s.link m) → (∀ m, m ≠ l → t.todo m = s.todo m) →
      t.links = s.links → ¬(t.link l).Unstarted → ∀ m ∈ t.links, (t.link m).Unstarted →
      (t.link m).state = .new ∧ (t.link m).numCompsDone + t.todo m = 2 := by
    intro l ho htodo hlinks hn m hm hu
    have hml : m ≠ l := fun he => hn (he ▸ hu)
    rw [ho m hml] at hu ⊢
    rw [htodo m hml]
    exact hg.unstarted m (hlinks ▸ hm) hu
  cases hm with
  | still hf hp hs ho =>
    refine ⟨fun l hl hu => ?_,?_⟩
    · rw [hf.links] at hl
      have hsame := hs l hl
      rw [hsame.state,hsame.numCompsDone,todo_congr hp]
      exact hg.unstarted l hl (of_unstarted hsame (h.stages hl) hu)
    · rw [hf.links,hf.unreported]
      refine hg.together.imp (fun hall l hl => ?_) fun hall l hl hun => ?_
      · rw [(hs l (h.unreported l hl)).linkreq]
        exact hall l hl
      · rw [(hs l hl).linkreq]
        exact hall l hl hun
  | spoil hf hp l hm hu ht hr hn ho => cases hok
  | drop hf hl hp l hlt => cases hok
  | arrive hf l hv hn ht =>
    have hself := hv.todo_self
    refine ⟨fun m hm hu => ?_,?_⟩
    · rw [hf.links] at hm
      by_cases hml : m = l
      · rw [hml,ht] at hu ⊢
        obtain ⟨hnew,htwo⟩ := hg.unstarted l (h.mem_of_visited hv)
          ⟨hu.state,hu.linkreq,hu.answers,hu.thread⟩
        exact ⟨hnew,by dsimp only; omega⟩
      · rw [hv.other m hml] at hu ⊢
        rw [← hv.todo_other hml]
        exact hg.unstarted m hm hu
    · have hq : ∀ m, (t.link m).linkreq = (s.link m).linkreq := by
        intro m
        by_cases hml : m = l
        · rw [hml,ht]
        · rw [hv.other m hml]
      rw [hf.links,hf.unreported]
      simp only [hq]
      exact hg.together
  | begin hf l hv hu hnew hn ht ht' =>
    refine ⟨others l hv.other (fun m hm => (hv.todo_other hm).symm) hf.links
      fun hu => ht.thread hu.thread,?_⟩
    have hq : ∀ m, (t.link m).linkreq = (s.link m).linkreq := by
      intro m
      by_cases hml : m = l
      · rw [hml,ht.linkreq,hu.linkreq]
      · rw [hv.other m hml]
    rw [hf.links,hf.unreported]
    simp only [hq]
    exact hg.together
  | fail hf l hv hu hnew hn ht ht' =>
    refine ⟨others l hv.other (fun m hm => (hv.todo_other hm).symm) hf.links fun hu => ?_,.inr ?_⟩
    · cases hu.linkreq.symm.trans ht.linkreq
    · intro m hm hun
      rw [hf.links] at hm
      rw [hf.unreported] at hun
      have hml : m ≠ l := fun he => hun (he ▸ h.unstarted_unreported (h.mem_of_visited hv) hu)
      rw [hv.other m hml]
      exact hok m hm hun
  | alone hf hp l hbusy hd hn ho =>
    refine ⟨others l ho (fun m _ => todo_congr hp m) hf.links fun hu => ?_,.inr ?_⟩
    · cases hu.linkreq.symm.trans hd.linkreq
    · intro m hm hun
      rw [hf.links] at hm
      rw [hf.unreported] at hun
      have hml : m ≠ l := fun he => hun (he ▸ h.mem_unreported hbusy)
      rw [ho m hml]
      exact hok m hm hun
  | report l hbusy hw hn ho hp hlinks hclear hstarts hunr hc =>
    refine ⟨others l ho (fun m _ => todo_congr hp m) hlinks fun hu => ?_,.inl ?_⟩
    · rcases hu.state with he | he <;> cases he.symm.trans hw.state
    · intro m hm
      rw [hunr] at hm
      have hml : m ≠ l := by simpa using (List.mem_filter.mp hm).2
      rw [ho m hml]
      exact hok m (List.mem_filter.mp hm).1
  | start status hs ht =>
    rw [ht]
    exact ⟨hg.unstarted,hg.together⟩
  | finish status l rest hs hd hn ht ho =>
    obtain ⟨hl,hempty,hw⟩ := h.waits_of_finish hs
    have htodo : ∀ m, t.todo m = s.todo m := todo_congr (by rw [ht])
    refine ⟨others l ho (fun m _ => htodo m) (by rw [ht]) fun hu => ?_,.inl ?_⟩
    · cases hu.linkreq.symm.trans (hd hw).linkreq
    · rw [ht]
      dsimp only
      rw [hempty]
      exact nofun

theorem OnCourse.answered (hg : s.OnCourse) (h : s.Inv) (hq : s.Quiet) :
    ∀ l ∈ s.links, (s.link l).Done := by
  have hstart : ∀ l ∈ s.links, (s.link l).Waits ∧ l ∉ s.unreported ∨ (s.link l).Done := by
    intro l hl
    rcases h.stage l hl with ⟨hu | hb,_⟩ | hw | hd
    · obtain ⟨hnew,htwo⟩ := hg.unstarted l hl hu
      have := h.new l hl hnew
      have hzero : s.todo l = 0 := by simp [todo,hq.pending]
      omega
    · exact absurd (hq.thread l hl) hb.thread
    · exact .inl hw
    · exact .inr hd
  intro l hl
  rcases hstart l hl with ⟨hw,hrep⟩ | hd
  · rcases hg.together with hall | hall
    · -- no report is missing, so the session completes the links
      have hempty : s.unreported = [] := by
        refine List.eq_nil_iff_forall_not_mem.mpr fun m hm => ?_
        rcases hstart m (h.unreported m hm) with ⟨_,hmun⟩ | hd
        · exact hmun hm
        · cases hd.linkreq.symm.trans (hall m hm)
      have hcs := h.completed
      rw [Completed] at hcs
      rcases hq.completion with hc | ⟨status,hc⟩
      · rw [hc] at hcs
        exact absurd hempty (hcs.2.2.1 (List.ne_nil_of_mem hl))
      · rw [hc] at hcs
        simpa using hcs.2.2.2.2 l hl
    · cases (hall l hl hrep).symm.trans hw.linkreq
  · exact hd

theorem Doomed.not_answered (hd : s.Doomed) (h : s.Inv) :
    ¬∀ l ∈ s.links, (s.link l).answers.length = 1 := by
  intro hall
  have hdone : ∀ l ∈ s.links, (s.link l).Done := by
    intro l hl
    by_contra hn
    have := hall l hl
    rcases h.stage l hl with ⟨hu | hb,_⟩ | ⟨hw,_⟩ | hd
    · simp [hu.answers] at this
    · simp [hb.answers] at this
    · simp [hw.answers] at this
    · exact hn hd
  rcases hd with ⟨l,hl⟩ | ⟨a,b,hst⟩
  · cases hl.unstarted.linkreq.symm.trans (hdone l hl.mem).linkreq
  · cases hst.waits.symm.trans (hdone b hst.mem).linkreq

theorem countP_pairs (ends : L → C × C) (links : List L) (l : L) :
    (links.flatMap fun m => [((ends m).1,m),((ends m).2,m)]).countP (·.2 = l) =
      2 * links.count l := by
  induction links with
  | nil => rfl
  | cons m links ih =>
    rw [List.flatMap_cons,List.countP_append,ih,List.count_cons]
    by_cases hm : m = l
    · simp [hm]
      omega
    · simp [hm]

theorem todo_init {links : List L} (hlinks : links.Nodup) {comps : List C} {ends : L → C × C}
    {vlan : L → ℕ × Bool} {l : L} (hl : l ∈ links) : (init links comps ends vlan).todo l = 2 := by
  rw [todo,init,countP_pairs,hlinks.count,if_pos hl]

omit [DecidableEq L] in
theorem init_unstarted {links : List L} {comps : List C} {ends : L → C × C}
    {vlan : L → ℕ × Bool} (l : L) : ((init links comps ends vlan).link l).Unstarted :=
  ⟨.inl rfl,rfl,rfl,rfl⟩

theorem inv_init {links : List L} (hlinks : links.Nodup) (comps : List C) (ends : L → C × C)
    (vlan : L → ℕ × Bool) : (init links comps ends vlan).Inv where
  nodup := hlinks
  pending p hp := by
    obtain ⟨l,hl,he⟩ := List.mem_flatMap.mp hp
    simp only [List.mem_cons,List.not_mem_nil,or_false] at he
    rcases he with rfl | rfl <;> exact hl
  unreported _ := id
  clearing _ hl := absurd hl List.not_mem_nil
  rest _ _ hc := by cases hc
  count l hl := by
    rw [todo_init hlinks hl]
    exact Nat.le_refl _
  new _ _ _ := Nat.zero_lt_two
  started l _ := .inl (init_unstarted l)
  outside _ _ := rfl
  stage l hl := .inl ⟨.inl (init_unstarted l),hl⟩
  completed := ⟨rfl,rfl,id,fun _ hl _ => hl⟩

theorem onCourse_init {links : List L} (hlinks : links.Nodup) (comps : List C) (ends : L → C × C)
    (vlan : L → ℕ × Bool) : (init links comps ends vlan).OnCourse where
  unstarted l hl _ := ⟨rfl,by rw [todo_init hlinks hl]; rfl⟩
  together := .inl fun _ _ => rfl

/-- What the links of a session may expect. -/
structure AnsweredOnce (s : LinkSession L C) : Prop where
  starts : s.starts ≤ 1
  reported : 0 < s.starts → s.unreported = []
  atMost : ∀ l ∈ s.links, (s.link l).answers.length ≤ 1
  answered : s.Quiet → ∀ l ∈ s.links, (s.link l).answers.length = 1

theorem Inv.starts (h : s.Inv) : s.starts ≤ 1 ∧ (0 < s.starts → s.unreported = []) := by
  have hcs := h.completed
  rw [Completed] at hcs
  cases hcomp : s.completion with
  | none =>
    rw [hcomp] at hcs
    exact ⟨by omega,fun hs => by omega⟩
  | start =>
    rw [hcomp] at hcs
    exact ⟨by omega,fun _ => hcs.2.2.1⟩
  | links status rest =>
    rw [hcomp] at hcs
    exact ⟨by omega,fun _ => hcs.2.2.1⟩

theorem Inv.atMost (h : s.Inv) {l : L} (hl : l ∈ s.links) : (s.link l).answers.length ≤ 1 := by
  rcases h.stage l hl with ⟨hu | hb,_⟩ | ⟨hw,_⟩ | hd
  · simp [hu.answers]
  · simp [hb.answers]
  · simp [hw.answers]
  · exact Nat.le_of_eq hd.answers

theorem OnCourse.answeredOnce (hg : s.OnCourse) (h : s.Inv) : s.AnsweredOnce :=
  ⟨h.starts.1,h.starts.2,fun _ => h.atMost,fun hq l hl => (hg.answered h hq l hl).answers⟩

variable [DecidableEq C]

/-- The steps of the threads of a session. -/
def LinkStep (testing : Bool) (s : LinkSession L C) (a : LinkAct L C) (t : LinkSession L C) : Prop :=
  s.step testing a = some t

theorem Inv.linkStep {a : LinkAct L C} (h : s.Inv) (hs : LinkStep testing s a t) : t.Inv := by
  obtain ⟨ok,hm,_⟩ := step_move h hs
  exact h.move hm

/-- The switches are set up at most once, after all reports, and no link is answered twice; when
no thread is running, every link has its answer exactly when every step was orderly. -/
theorem answered_iff_orderly {links : List L} (hlinks : links.Nodup) (comps : List C)
    (ends : L → C × C) (vlan : L → ℕ × Bool) (testing : Bool)
    {tr : List (LinkAct L C × LinkSession L C)}
    (hr : IsRun (LinkStep testing) (init links comps ends vlan) tr) :
    EveryState (fun s => s.starts ≤ 1 ∧ (0 < s.starts → s.unreported = []) ∧
      ∀ l ∈ s.links, (s.link l).answers.length ≤ 1) (init links comps ends vlan) tr ∧
    (EveryStep (fun s a _ => s.Orderly a) (init links comps ends vlan) tr →
      EveryState AnsweredOnce (init links comps ends vlan) tr) ∧
    ((lastState (init links comps ends vlan) tr).Quiet →
      ((lastState (init links comps ends vlan) tr).AnsweredOnce ↔
        EveryStep (fun s a _ => s.Orderly a) (init links comps ends vlan) tr)) := by
  have hinit := inv_init hlinks comps ends vlan
  have hcourse := onCourse_init hlinks comps ends vlan
  have hkeep : ∀ (s : LinkSession L C) a t, s.Inv → s.OnCourse → LinkStep testing s a t →
      s.Orderly a → t.OnCourse := by
    intro s a t h hg hs ho
    obtain ⟨ok,hm,hok⟩ := step_move h hs
    exact hg.move h hm (hok.mp ho)
  refine ⟨?_,fun ho => ?_,fun hq => ?_⟩
  · have hall := hr.invariant (P := Inv) (fun _ _ _ h hs => h.linkStep hs) hinit
    exact hall.mono fun s h => ⟨h.starts.1,h.starts.2,fun _ => h.atMost⟩
  · have hall := hr.everyState (P := fun s => s.Inv ∧ s.OnCourse)
      (fun s a t h hs ho => ⟨h.1.linkStep hs,hkeep s a t h.1 h.2 hs ho⟩) ⟨hinit,hcourse⟩ ho
    exact hall.mono fun s h => h.2.answeredOnce h.1
  · have hlast := hr.last_of (P := Inv) (fun _ _ _ h hs => h.linkStep hs) hinit
    have hverdict := hr.last_good_or_bad (C := fun s a _ => s.Orderly a) (B := Doomed)
      (fun _ _ _ h hs => Inv.linkStep h hs) hkeep
      (fun s a t h hs ho => by
        obtain ⟨ok,hm,hok⟩ := step_move h hs
        exact doomed_of_not h hm fun h => ho (hok.mpr h))
      (fun s a t h hd hs => by
        obtain ⟨ok,hm,_⟩ := step_move h hs
        exact hd.move h hm) hinit hcourse
    rcases hverdict with ⟨ho,hg⟩ | ⟨ho,hd⟩
    · exact iff_of_true (hg.answeredOnce hlast) ho
    · exact iff_of_false (fun ha => hd.not_answered hlast (ha.answered hq)) ho

/-- One link between two components. -/
def oneLink : List (LinkAct ℕ ℕ) :=
  [.initializeComp false,.initializeComp false,.takeLink 0 true,.takeLink 1 true,.addPorts 7 3 true,
    .readRefresh 7,.report 7,.startVlans true,.completeNext]

theorem oneLink_answered : ([7] : List ℕ).Nodup ∧
    ((lastState (init [7] [0,1] (fun _ => (0,1)) fun _ => (0,true))
      (runOf (step false) (init [7] [0,1] (fun _ => (0,1)) fun _ => (0,true)) oneLink)).link 7).answers
        = [.fine] ∧
    EveryState AnsweredOnce (init [7] [0,1] (fun _ => (0,1)) fun _ => (0,true))
      (runOf (step false) (init [7] [0,1] (fun _ => (0,1)) fun _ => (0,true)) oneLink) := by
  refine ⟨by decide,by decide +kernel,?_⟩
  refine (answered_iff_orderly (by decide) [0,1] (fun _ => (0,1))
    (fun _ => (0,true)) false (isRun_runOf _ _ oneLink)).2.1 ?_
  exact ⟨nofun,nofun,nofun,nofun,trivial,trivial,(by decide +kernel : ∀ l ∈ [7],_),trivial,trivial,
    trivial⟩

/-- Two links between the same components; the session is cleared when one of them has reported. -/
def twoLinks : List (LinkAct ℕ ℕ) :=
  [.initializeComp false,.initializeComp false,.takeLink 0 true,.takeLink 0 true,.takeLink 1 true,
    .takeLink 1 true,.addPorts 8 3 true,.readRefresh 8,.report 8,.clear,.refreshNext,.refreshNext,
    .addPorts 7 4 true,.readRefresh 7,.complete 7]

theorem refreshed_link_strands : ¬ ∀ tr : List (LinkAct ℕ ℕ × LinkSession ℕ ℕ),
    IsRun (LinkStep false) (init [7,8] [0,1] (fun _ => (0,1)) fun _ => (0,true)) tr →
      (lastState (init [7,8] [0,1] (fun _ => (0,1)) fun _ => (0,true)) tr).AnsweredOnce := by
  intro h
  have hall := (h _ (isRun_runOf _ _ twoLinks)).answered ⟨by decide +kernel,by decide +kernel,
    by decide +kernel,.inl (by decide +kernel),by decide +kernel⟩
  have hlast := hall 8 (by decide +kernel)
  revert hlast
  decide +kernel

end LinkSession

end OnlDaemons.Crd
