import OnlDaemons.Lib.ProgramRules
import OnlDaemons.Onldb.SpecialDb

/-!
# Changing the state of a node

`set_state`, `put_in_testing` and `remove_from_testing` write the new state of the node first, and then
make or end the reservation that goes with it. None of the returns after that puts the old state back.
So a call that fails has changed nothing if and only if it fails before it writes the state.

## Main definitions

- `StateChange`, `StateChange.prog` — the three operations
- `SpecialDb.Untouched` — the states of the node and of its cluster, and the reservations that go with
  them, are what they were

## Main result

- `untouched_iff`
-/

namespace OnlDaemons.Onldb

open OnlDaemons.Lib LockProg SpecialDb

/-- The operations that change the state of a node. -/
inductive StateChange where
  | setState (node state : String) (len : ℕ)
  | putInTesting (node : String) (len : ℕ)
  | removeFromTesting (node : String)

namespace StateChange

def node : StateChange → String
  | setState node _ _ => node
  | putInTesting node _ => node
  | removeFromTesting node => node

/-- The state that the node gets. -/
def newState : StateChange → String
  | setState _ state _ => state
  | putInTesting _ _ => "testing"
  | removeFromTesting _ => "free"

def prog (clock : Clock) : StateChange → Op
  | setState node state len => Onldb.setState clock node state len
  | putInTesting node len => Onldb.putInTesting clock node len
  | removeFromTesting node => Onldb.removeFromTesting node

end StateChange

namespace SpecialDb

variable {T : Type}

/-- The reservations for repair or testing of the node or its cluster. -/
def specialsOf (db : SpecialDb T) (node : String) : List Reservation :=
  db.reservations.filter fun r => IsSpecial r.user ∧ db.Has r.rid node (db.cluster node)

def Untouched (db : SpecialDb T) (node : String) (db' : SpecialDb T) : Prop :=
  (∀ n, n = node ∨ (∃ c, db.cluster node = some c ∧ db.cluster n = some c) →
    db'.nodeState n = db.nodeState n) ∧ db'.specialsOf node = db.specialsOf node

end SpecialDb

/-- Every state that is written is this one. -/
def Query.SetsOnly (state : String) : Query → Prop
  | .setNodeState _ s => s = state
  | _ => True

abbrev Op.SetsOnly (state : String) (p : Op) : Prop :=
  p.Meets (fun _ _ => True) (Query.SetsOnly state) fun _ => True

/-! ### The states that are written -/

section setsOnly

variable (clock : Clock) (node state : String)

theorem setsOnly_discretizeTime (time : ℤ) (divisor : ℕ) {k : ℤ → Op} (hk : ∀ t, (k t).SetsOnly state) :
    (discretizeTime clock time divisor k).SetsOnly state := by
  unfold discretizeTime
  simp only
  split
  · trivial
  · exact hk _

theorem setsOnly_remapReservation (parent : Option String) (res : Reservation) (s : Unit) {k : Unit → Op}
    (hk : ∀ s, (k s).SetsOnly state) : (remapReservation node parent res s k).SetsOnly state := by
  have huncancel : (setBack res k).SetsOnly state := by
    refine .ask trivial ?_
    rintro (er | _) -
    · trivial
    · exact hk ()
  refine .ask trivial ?_
  rintro (er | _) -
  · trivial
  refine .ask trivial fun r _ => ?_
  simp only
  split
  · exact hk ()
  refine .ask trivial fun r' _ => ?_
  split
  · exact hk ()
  split
  · exact huncancel
  refine .ask trivial fun r _ => ?_
  split
  · exact hk ()
  split
  · exact hk ()
  · exact huncancel

theorem setsOnly_remapReservations (parent : Option String) (begin end_ : ℤ) :
    (remapReservations node parent begin end_).SetsOnly state := by
  refine .ask trivial ?_
  rintro (er | reslist) -
  · trivial
  · have hdone : (unlockRet 1 "success").SetsOnly state := trivial
    exact .forEach_true (fun res s _ hk => setsOnly_remapReservation node state parent res s hk)
      (fun _ => hdone) ()

theorem setsOnly_addSpecial (user : String) (divisor len : ℕ) (parent : Option String) :
    (addSpecial clock node user divisor len parent).SetsOnly state := by
  refine .ask trivial fun fc _ => ?_
  split
  · trivial
  refine .ask trivial fun now _ => ?_
  refine setsOnly_discretizeTime clock state now divisor fun begin => ⟨?_,trivial⟩
  refine .ask trivial fun vcr _ => ?_
  split
  · trivial
  refine .ask trivial fun r _ => ?_
  split
  · trivial
  · exact setsOnly_remapReservations node state parent _ _

theorem setsOnly_newSpecial (divisor len : ℕ) :
    (newSpecial clock node state divisor len).SetsOnly state := by
  refine .ask trivial ?_
  rintro (er | (_ | ⟨⟨type,cluster⟩,rows⟩)) -
  · trivial
  · trivial
  cases cluster with
  | none => exact setsOnly_addSpecial clock node state state divisor len none
  | some cluster =>
    refine .ask trivial fun pt _ => ?_
    split
    · trivial
    refine .ask trivial ?_
    rintro (er | complist) -
    · trivial
    refine .forEach_true ?_ (fun _ => setsOnly_addSpecial clock node state state divisor len _) 3
    intro comp label k hk
    refine .ask trivial fun blah _ => ?_
    split
    · trivial
    refine .ask rfl ?_
    rintro (er | _) -
    · trivial
    · exact hk _

theorem setsOnly_handleSpecialState (len : ℕ) :
    (handleSpecialState clock node state len false).SetsOnly state := by
  refine .ask trivial ?_
  rintro (er | (_ | ⟨divisor,rest⟩)) -
  · trivial
  · trivial
  simp only [Bool.false_eq_true,↓reduceIte]
  split
  · refine .ask trivial ?_
    rintro (er | (_ | ⟨len,rest⟩)) -
    · trivial
    · trivial
    · exact setsOnly_newSpecial clock node state divisor len
  · exact setsOnly_newSpecial clock node state divisor len

theorem setsOnly_clearSpecialState (user : String) :
    (clearSpecialState node user state).SetsOnly state := by
  have hcancel : ∀ parent current, (cancelSpecial node user parent current).SetsOnly state := by
    intro parent current
    refine .ask trivial ?_
    rintro (er | _) - <;> trivial
  refine ⟨?_,trivial⟩
  refine .ask trivial fun current _ => .ask trivial ?_
  rintro (er | (_ | ⟨⟨type,cluster⟩,rows⟩)) -
  · trivial
  · trivial
  cases cluster with
  | none => exact hcancel none current
  | some cluster =>
    refine .ask trivial ?_
    rintro (er | complist) -
    · trivial
    refine .forEach_true ?_ (fun _ => hcancel (some cluster) current) ()
    intro comp _ k hk
    refine .ask rfl ?_
    rintro (er | _) -
    · trivial
    · exact hk _

theorem setsOnly_setState_rest (oldState : String) (len : ℕ) :
    (if oldState = "testing" then .ret ⟨1, "success"⟩
      else if state = "repair" ∧ oldState ≠ "repair" then
        (handleSpecialState clock node state len false).bind fun r =>
          .ret (if r.result ≤ 0 then r else ⟨1, "success"⟩)
      else if oldState = "repair" ∧ state ≠ "repair" then
        (clearSpecialState node oldState state).bind fun r =>
          .ret (if r.result ≤ 0 then r else ⟨1, "success"⟩)
      else .ret ⟨1, "success"⟩ : Op).SetsOnly state := by
  split
  · trivial
  split
  · exact (setsOnly_handleSpecialState clock node state len).bind fun _ _ => trivial
  split
  · exact (setsOnly_clearSpecialState node state oldState).bind fun _ _ => trivial
  · trivial

theorem setsOnly_putInTesting_rest (oldState : String) (len : ℕ) :
    (if oldState = "repair" then (clearSpecialState node oldState "testing").bind fun r =>
        if r.result ≤ 0 then .ret r
        else (handleSpecialState clock node "testing" len false).bind fun t =>
          .ret (if t.result ≤ 0 then t else ⟨1, "success"⟩)
      else (handleSpecialState clock node "testing" len false).bind fun t =>
        .ret (if t.result ≤ 0 then t else ⟨1, "success"⟩) : Op).SetsOnly "testing" := by
  have hhandle : Op.SetsOnly "testing" ((handleSpecialState clock node "testing" len false).bind fun t =>
      .ret (if t.result ≤ 0 then t else ⟨1, "success"⟩)) :=
    (setsOnly_handleSpecialState clock node "testing" len).bind fun _ _ => trivial
  split
  · refine (setsOnly_clearSpecialState node "testing" oldState).bind fun r _ => ?_
    split
    · trivial
    · exact hhandle
  · exact hhandle

end setsOnly

/-! ### What a call leaves -/

section changes

variable {T : Type} {clock : Clock} {node state old : String} {db db' : SpecialDb T} {r : OnldbResp}
  {tr : List (LockEvent Query.Answer)}

theorem SpecialDb.Effects.setsOnly {q : Query} {answer : q.Answer} (h : Effects db q answer db')
    (hq : q.SetsOnly state) (hs : db.nodeState node = some state) : db'.nodeState node = some state := by
  by_cases hn : ∃ n s, q = .setNodeState n s
  · obtain ⟨n,s,rfl⟩ := hn
    subst hq
    cases answer with
    | error er => exact (congrArg (·.nodeState node) h).trans hs
    | ok =>
      rw [show db' = db.setNodeState n s from h,setNodeState_nodeState hs]
      split <;> rfl
  · rw [h.nodeState fun n s hq => hn ⟨n,s,hq⟩]
    exact hs

/-- Nothing is changed, or the new state is written. -/
def Wrote (node state : String) (db : SpecialDb T) (tr : List (LockEvent Query.Answer)) (db' : SpecialDb T) :
    Prop :=
  (db' = db ∧ ∀ s, .answer (.setNodeState node s) (.ok ()) ∉ tr) ∨
    .answer (.setNodeState node state) (.ok ()) ∈ tr ∧
      db.nodeState node ≠ some state ∧ db'.nodeState node = some state

theorem wrote_of_exec {k : Written → Op}
    (h : Exec Effects (.ask (.setNodeState node state) k) db tr r db')
    (herr : ∀ er, k (.error er) = .ret ⟨-1, er⟩) (hrest : (k (.ok ())).SetsOnly state)
    (hold : db.nodeState node = some old) (hne : old ≠ state) : Wrote node state db tr db' := by
  cases h with
  | @answer _ _ _ _ _ _ _ written hR h =>
  rcases written with er | ⟨⟩
  · cases hR
    rw [herr] at h
    cases h
    exact .inl ⟨rfl,by simp⟩
  · refine .inr ⟨List.mem_cons_self,?_,?_⟩
    · rw [hold]
      exact fun he => hne (Option.some.inj he)
    · refine Exec.keeps (P := fun db => db.nodeState node = some state) hrest
        (fun _ _ _ _ hq hs hR => SpecialDb.Effects.setsOnly hR hq hs) h ?_
      rw [show _ = db.setNodeState node state from hR,setNodeState_nodeState hold,if_pos rfl]

/-- The state of the node is read first. -/
theorem wrote_of_read {k : String → Op} {msg : String}
    (hk : ∀ old tr, db.nodeState node = some old → Exec Effects (k old) db tr r db' →
      Wrote node state db tr db')
    (h : Exec Effects (.ask (.nodeState node) fun
      | .error er => .ret ⟨-1, er⟩
      | .ok [] => .ret ⟨-1, msg⟩
      | .ok (old :: _) => k old : Op) db tr r db') : Wrote node state db tr db' := by
  cases h with
  | @answer _ _ _ _ _ _ _ rows hR h =>
  rcases rows with er | (_ | ⟨old,rest⟩)
  · cases hR
    cases h
    exact .inl ⟨rfl,by simp⟩
  · obtain ⟨rfl,-⟩ := hR
    cases h
    exact .inl ⟨rfl,by simp⟩
  obtain ⟨rfl,hrows⟩ := hR
  have hold := Option.mem_toList.mp (hrows ▸ List.mem_cons_self : old ∈ (nodeState _ node).toList)
  refine (hk old _ hold h).imp (fun hw => ⟨hw.1,fun s hm => ?_⟩) fun hw => ⟨hw.1.tail _,hw.2⟩
  exact hw.2 s (by simpa using hm)

theorem wrote_setState {len : ℕ} (h : Exec Effects (setState clock node state len) db tr r db')
    (hfail : r.result ≤ 0) : Wrote node state db tr db' := by
  unfold setState at h
  split at h
  · cases h
    exact absurd hfail (by decide)
  refine wrote_of_read (fun old tr hold h => ?_) h
  simp only at h
  split at h
  · next hguard =>
    exact wrote_of_exec h (fun _ => rfl) (setsOnly_setState_rest clock node state old len) hold hguard.1
  -- the state stays, so nothing else is done either
  next hguard =>
  have hret : tr = [] ∧ r = ⟨1, "success"⟩ := by
    by_cases ht : old = "testing"
    · rw [if_pos ht] at h
      cases h
      exact ⟨rfl,rfl⟩
    have hold : old = state := by
      by_contra hne
      exact hguard ⟨hne,ht⟩
    subst hold
    rw [if_neg ht,if_neg fun hr => hr.2 hr.1,if_neg fun hr => hr.2 hr.1] at h
    cases h
    exact ⟨rfl,rfl⟩
  rw [hret.2] at hfail
  exact absurd hfail (by decide)

theorem wrote_putInTesting {len : ℕ} (h : Exec Effects (putInTesting clock node len) db tr r db') :
    Wrote node "testing" db tr db' := by
  refine wrote_of_read (fun old tr hold h => ?_) h
  simp only at h
  split at h
  · cases h
    exact .inl ⟨rfl,by simp⟩
  · next hne =>
    exact wrote_of_exec h (fun _ => rfl) (setsOnly_putInTesting_rest clock node old len) hold hne

theorem wrote_removeFromTesting (h : Exec Effects (removeFromTesting node) db tr r db') :
    Wrote node "free" db tr db' := by
  refine wrote_of_read (fun old tr hold h => ?_) h
  split at h
  · cases h
    exact .inl ⟨rfl,by simp⟩
  · next hne =>
    have hrest : Op.SetsOnly "free" ((clearSpecialState node old "free").bind fun r =>
        .ret (if r.result ≤ 0 then r else ⟨1, "success"⟩)) :=
      (setsOnly_clearSpecialState node "free" old).bind fun _ _ => trivial
    refine wrote_of_exec h (fun _ => rfl) hrest hold ?_
    rintro rfl
    exact hne (by decide)

theorem StateChange.wrote {c : StateChange} (h : Exec Effects (c.prog clock) db tr r db')
    (hfail : r.result ≤ 0) : Wrote c.node c.newState db tr db' :=
  match c with
  | setState _ _ _ => wrote_setState h hfail
  | putInTesting _ _ => wrote_putInTesting h
  | removeFromTesting _ => wrote_removeFromTesting h

/-- A call that fails has changed nothing iff it has not written the state of the node. -/
theorem untouched_iff (clock : Clock) (c : StateChange) {db db' : SpecialDb T}
    {tr : List (LockEvent Query.Answer)} {r : OnldbResp} (h : Exec Effects (c.prog clock) db tr r db')
    (hfail : r.result ≤ 0) :
    db.Untouched c.node db' ↔ ∀ state, .answer (.setNodeState c.node state) (.ok ()) ∉ tr := by
  refine ⟨fun hsame state hm => ?_,fun hno => ?_⟩
  · obtain ⟨-,hno⟩ | ⟨-,hne,heq⟩ := c.wrote h hfail
    · exact hno state hm
    · exact hne ((hsame.1 c.node (.inl rfl)).symm.trans heq)
  · obtain ⟨rfl,-⟩ | ⟨hm,-⟩ := c.wrote h hfail
    · exact ⟨fun _ _ => rfl,rfl⟩
    · exact absurd hm (hno _)

end changes

/-- The node "pc1" is free, and nothing is reserved. -/
def onePc : SpecialDb Unit where
  nodeState n := if n = "pc1" then some "free" else none
  cluster _ := none
  hosts _ := false
  reservations := []
  nodes _ := []
  clusters _ := []
  userTopology _ := ()
  loaded := none

/-- "pc1" is put in testing, and the lock is refused. -/
def refusedEvents : List (LockEvent Query.Answer) :=
  [.answer (.nodeState "pc1") (.ok ["free"]), .answer (.setNodeState "pc1" "testing") (.ok ()),
    .answer (.policy "divisor") (.ok [2]), .answer (.specialNode "pc1") (.ok [("pc",none)]),
    .answer (.fixComponent 1 "pc1") ⟨1,"success"⟩, .answer .timeNow (0 : ℤ), .refused]

theorem exec_refused : Exec Effects ((StateChange.putInTesting "pc1" 24).prog ⟨0,fun _ => ""⟩) onePc refusedEvents
    ⟨0,"database locking problem"⟩ (onePc.setNodeState "pc1" "testing") := by
  have hread : Effects onePc (.nodeState "pc1") (.ok ["free"]) onePc := ⟨rfl,rfl⟩
  have hnode : Effects (onePc.setNodeState "pc1" "testing") (.specialNode "pc1") (.ok [("pc",none)])
      (onePc.setNodeState "pc1" "testing") := ⟨rfl,by simp [onePc,setNodeState]⟩
  refine .answer hread (.answer (u := onePc.setNodeState "pc1" "testing") rfl ?_)
  refine .answer (u := onePc.setNodeState "pc1" "testing") rfl (.answer hnode ?_)
  refine .answer (u := onePc.setNodeState "pc1" "testing") rfl ?_
  exact .answer (u := onePc.setNodeState "pc1" "testing") rfl (.refused .ret)

theorem touched_refused : ¬onePc.Untouched "pc1" (onePc.setNodeState "pc1" "testing") := by
  intro h
  have hno := (untouched_iff ⟨0,fun _ => ""⟩ (.putInTesting "pc1" 24) exec_refused (by decide)).mp h "testing"
  exact hno (.tail _ List.mem_cons_self)

/-- The call fails, and the node is in testing. -/
theorem not_always_untouched :
    ¬ ∀ (clock : Clock) (c : StateChange) (db db' : SpecialDb Unit) (tr : List (LockEvent Query.Answer))
      (r : OnldbResp), Exec Effects (c.prog clock) db tr r db' → r.result ≤ 0 → db.Untouched c.node db' := by
  intro h
  have hsame := (h _ _ _ _ _ _ exec_refused (by decide)).1 "pc1" (.inl rfl)
  exact absurd hsame (by decide)

end OnlDaemons.Onldb
