import OnlDaemons.Onldb.EdgeLoads
import OnlDaemons.Onldb.ReadBack

/-!
# Loads that a request carries

The loads of a link are stored with a reservation, read back with it, and copied with the link when the request is
embedded again. `calculate_edge_loads` adds to them.

## Main results

- `Topology.embeddingLoads_eq_iff` — when two runs on requests that differ in their loads agree
-/

namespace OnlDaemons.Onldb

def LinkResource.withoutLoads (x : LinkResource) : LinkResource := { x with rload := 0, lload := 0 }

namespace Topology

/-- The request as it was before it was embedded for the first time. -/
def withoutLoads (t : Topology) : Topology := { t with links := t.links.map LinkResource.withoutLoads }

/-- The loads with which `find_embedding` works. -/
def embeddingLoads (rounds : ℕ) (t : Topology) : Option Topology :=
  match t.copyRequest with
  | .error _ => none
  | .ok req => (req.calculateEdgeLoads rounds).map Prod.fst

variable {t t' req req' s : Topology} {l rounds : ℕ}

@[simp] theorem withoutLoads_nodes : t.withoutLoads.nodes = t.nodes := rfl

@[simp] theorem withoutLoads_node (a : ℕ) : t.withoutLoads.node a = t.node a := rfl

@[simp] theorem withoutLoads_length : t.withoutLoads.links.length = t.links.length := List.length_map _

theorem withoutLoads_link (l : ℕ) : t.withoutLoads.link l = (t.link l).withoutLoads := by
  simp only [link, withoutLoads, List.getD_eq_getElem?_getD, List.getElem?_map]
  cases t.links[l]? <;> rfl

/-- Requests that differ in their loads only. -/
theorem sameShape_of_withoutLoads (h : t.withoutLoads = t'.withoutLoads) : SameShape t t' := by
  have hlink : ∀ l, (t'.link l).withoutLoads = (t.link l).withoutLoads := by
    intro l
    rw [← withoutLoads_link, ← withoutLoads_link, h]
  refine ⟨(congrArg nodes h).symm, fun l => ?_, fun l => ?_⟩
  · exact congrArg (·.end1) (hlink l)
  · exact congrArg (·.end2) (hlink l)

/-! ### The copy -/

theorem addCopyLink_withoutLoads (x : LinkResource) (label1 label2 : ℕ) :
    s.withoutLoads.addCopyLink x.withoutLoads label1 label2 = (s.addCopyLink x label1 label2).map withoutLoads := by
  have hlabel : (s.withoutLoads.links.any fun l => l.label = x.withoutLoads.label) =
      s.links.any fun l => l.label = x.label := by
    rw [withoutLoads, List.any_map]
    rfl
  have hfind : ∀ label, s.withoutLoads.findNode label = s.findNode label := fun _ => rfl
  unfold addCopyLink
  rw [hlabel, hfind, hfind]
  split
  · rfl
  · split
    · rfl
    · rfl
    · simp only [Except.map, withoutLoads, List.length_map, List.map_append, List.map_singleton]
      rfl

theorem of_foldlM_mem {ε α γ : Type} {step : α → γ → Except ε α} {P : α → Prop} {cs : List γ}
    (hstep : ∀ s, ∀ c ∈ cs, ∀ s', P s → step s c = .ok s' → P s') {s s' : α} (hs : P s)
    (h : cs.foldlM step s = .ok s') : P s' := by
  induction cs generalizing s with
  | nil =>
    cases h
    exact hs
  | cons c cs ih =>
    rw [List.foldlM_cons] at h
    cases hc : step s c with
    | error e =>
      rw [hc] at h
      cases h
    | ok s₁ =>
      rw [hc] at h
      exact ih (fun s c hm => hstep s c (List.mem_cons_of_mem _ hm)) (hstep s c List.mem_cons_self s₁ hs hc) h

theorem of_foldlM {ε α γ : Type} {step : α → γ → Except ε α} {P : α → Prop}
    (hstep : ∀ s c s', P s → step s c = .ok s' → P s') {cs : List γ} {s s' : α} (hs : P s)
    (h : cs.foldlM step s = .ok s') : P s' :=
  of_foldlM_mem (fun s c _ s' => hstep s c s') hs h

theorem addCopyNode_links {n : NodeResource} {parentLabel : ℕ} (h : s.addCopyNode n parentLabel = .ok s') :
    s'.links = s.links := by
  unfold addCopyNode at h
  split at h
  · cases h
  · split at h
    · cases h
      rfl
    · split at h <;> cases h
      rfl

/-- A copy has the nodes first and then the links. -/
theorem copyRequest_eq_ok (h : t.copyRequest = .ok req) : ∃ s : Topology, s.links = [] ∧
    t.nodes.foldlM (fun req n => addCopyNode req n (n.parent.elim 0 fun p => (t.node p).label)) {} = .ok s ∧
    t.links.foldlM (fun req l => addCopyLink req l (t.node l.end1.node).label (t.node l.end2.node).label) s =
      .ok req := by
  unfold copyRequest at h
  cases hn : t.nodes.foldlM (fun req n => addCopyNode req n (n.parent.elim 0 fun p => (t.node p).label)) {} with
  | error e =>
    rw [hn] at h
    cases h
  | ok s =>
    rw [hn] at h
    refine ⟨s, ?_, rfl, h⟩
    exact of_foldlM (P := fun s => s.links = []) (fun s c s' hs hc => (addCopyNode_links hc).trans hs) rfl hn

/-- A copy of the request without its loads is the copy without its loads. -/
theorem copyRequest_withoutLoads (t : Topology) : t.withoutLoads.copyRequest = t.copyRequest.map withoutLoads := by
  unfold copyRequest
  simp only [withoutLoads_nodes, withoutLoads_node]
  cases hn : t.nodes.foldlM (fun req n => addCopyNode req n (n.parent.elim 0 fun p => (t.node p).label)) {} with
  | error e => rfl
  | ok s =>
    have hs : s.links = [] := of_foldlM (P := fun s => s.links = [])
      (fun s c s' hs hc => (addCopyNode_links hc).trans hs) rfl hn
    have hlinks := foldlM_map (f := withoutLoads)
      (j := fun req l => addCopyLink req l.withoutLoads (t.node l.end1.node).label (t.node l.end2.node).label)
      (fun s x => addCopyLink_withoutLoads x _ _) t.links s
    rw [show s.withoutLoads = s by rw [withoutLoads, hs, List.map_nil, ← hs]] at hlinks
    exact List.foldlM_map.trans hlinks

/-- The request that differs in its loads is copied as well. -/
theorem exists_copyRequest (hsame : t.withoutLoads = t'.withoutLoads) (hcopy : t.copyRequest = .ok req) :
    ∃ req', t'.copyRequest = .ok req' ∧ req.withoutLoads = req'.withoutLoads := by
  have h := copyRequest_withoutLoads t
  rw [hsame, copyRequest_withoutLoads t', hcopy] at h
  cases hreq : t'.copyRequest with
  | error e =>
    rw [hreq] at h
    cases h
  | ok req' =>
    rw [hreq] at h
    exact ⟨req', rfl, (Except.ok.inj h).symm⟩

/-- The loads in the two directions. -/
def loads (x : LinkResource) : ℕ × ℕ := (x.rload, x.lload)

theorem addCopyLink_loads {x : LinkResource} {label1 label2 : ℕ}
    (h : s.addCopyLink x label1 label2 = .ok s') : s'.links.map loads = s.links.map loads ++ [loads x] := by
  unfold addCopyLink at h
  split at h
  · cases h
  · split at h <;> cases h
    exact List.map_append

theorem foldlM_addCopyLink_loads (ls : List LinkResource) (h : ls.foldlM (fun req l =>
    addCopyLink req l (t.node l.end1.node).label (t.node l.end2.node).label) s = .ok s') :
    s'.links.map loads = s.links.map loads ++ ls.map loads := by
  induction ls generalizing s with
  | nil =>
    cases h
    rw [List.map_nil, List.append_nil]
  | cons l ls ih =>
    rw [List.foldlM_cons] at h
    cases hl : addCopyLink s l (t.node l.end1.node).label (t.node l.end2.node).label with
    | error e =>
      rw [hl] at h
      cases h
    | ok s₁ =>
      rw [hl] at h
      rw [ih h, addCopyLink_loads hl, List.append_assoc]
      rfl

/-- The loads are copied. -/
theorem copyRequest_loads (h : t.copyRequest = .ok req) : req.links.map loads = t.links.map loads := by
  obtain ⟨s, hs, -, hl⟩ := copyRequest_eq_ok h
  rw [foldlM_addCopyLink_loads _ hl, hs]
  rfl

theorem loadTo_of_loads (h : t.links.map loads = t'.links.map loads) (l : ℕ) (side : Bool) :
    t.loadTo l side = t'.loadTo l side := by
  have hl : loads (t.link l) = loads (t'.link l) := by
    have hget := congrArg (fun ls => ls.getD l (loads default)) h
    simp only [List.getD_map] at hget
    exact hget
  rw [loadTo, loadTo]
  cases side
  · exact congrArg Prod.fst hl
  · exact congrArg Prod.snd hl

/-- The links of the nodes are among those of the topology. -/
def OwnLinks (t : Topology) : Prop := ∀ n ∈ t.nodes, ∀ l ∈ n.links, l < t.links.length

theorem mem_modify {α : Type} {xs : List α} {i : ℕ} {f : α → α} {x : α} (h : x ∈ xs.modify i f) :
    x ∈ xs ∨ ∃ y ∈ xs, x = f y := by
  obtain ⟨j, hj, rfl⟩ := List.mem_iff_getElem.mp h
  rw [List.getElem_modify]
  rw [List.length_modify] at hj
  split
  · exact .inr ⟨xs[j], List.getElem_mem hj, rfl⟩
  · exact .inl (List.getElem_mem hj)

theorem OwnLinks.addCopyNode {n : NodeResource} {parentLabel : ℕ} (hs : s.OwnLinks)
    (h : s.addCopyNode n parentLabel = .ok s') : s'.OwnLinks := by
  unfold Topology.addCopyNode at h
  split at h
  · cases h
  · split at h
    · cases h
      intro m hm
      obtain hm | hm := List.mem_append.mp hm
      · exact hs m hm
      · rw [List.mem_singleton.mp hm]
        exact fun l hl => by cases hl
    · split at h <;> cases h
      intro m hm
      obtain hm | hm := List.mem_append.mp hm
      · obtain hm | ⟨k, hk, rfl⟩ := mem_modify hm
        · exact hs m hm
        · exact hs k hk
      · rw [List.mem_singleton.mp hm]
        exact fun l hl => by cases hl

theorem lt_of_pushLink {nodes : List NodeResource} {a k : ℕ} (hs : ∀ n ∈ nodes, ∀ l ∈ n.links, l < k + 1) :
    ∀ n ∈ pushLink nodes a k, ∀ l ∈ n.links, l < k + 1 := by
  intro n hn l hl
  obtain hn | ⟨m, hm, rfl⟩ := mem_modify hn
  · exact hs n hn l hl
  · obtain hl | hl := List.mem_append.mp hl
    · exact hs m hm l hl
    · rw [List.mem_singleton.mp hl]
      exact Nat.lt_succ_self k

theorem OwnLinks.addCopyLink {x : LinkResource} {label1 label2 : ℕ} (hs : s.OwnLinks)
    (h : s.addCopyLink x label1 label2 = .ok s') : s'.OwnLinks := by
  unfold Topology.addCopyLink at h
  split at h
  · cases h
  · split at h <;> cases h
    intro n hn l hl
    rw [List.length_append, List.length_singleton]
    exact lt_of_pushLink (lt_of_pushLink fun m hm k hk => Nat.lt_succ_of_lt (hs m hm k hk)) n hn l hl

theorem length_copyRequest (h : t.copyRequest = .ok req) : req.links.length = t.links.length := by
  have hmap := congrArg List.length (copyRequest_loads h)
  rwa [List.length_map, List.length_map] at hmap

/-- A copy has links of its own only. -/
theorem copyRequest_links (h : t.copyRequest = .ok req) (a : ℕ) : ∀ l ∈ (req.node a).links, l < req.links.length := by
  obtain ⟨s, -, hn, hl⟩ := copyRequest_eq_ok h
  have hs : s.OwnLinks := of_foldlM (fun _ _ _ hs hc => hs.addCopyNode hc) (fun _ hm => absurd hm List.not_mem_nil) hn
  have hreq : req.OwnLinks := of_foldlM (fun _ _ _ hs hc => hs.addCopyLink hc) hs hl
  by_cases ha : a < req.nodes.length
  · rw [node, List.getD_eq_getElem _ _ ha]
    exact hreq _ (List.getElem_mem ha)
  · rw [node, List.getD_eq_default _ _ (not_lt.mp ha)]
    exact fun l hl => by cases hl

/-! ### Two runs -/

/-- Requests that differ in their loads only get the same loads if and only if they carried the same loads. -/
theorem embeddingLoads_eq_iff (hsame : t.withoutLoads = t'.withoutLoads) (h32 : t.Unsigned) (h32' : t'.Unsigned)
    (hcopy : t.copyRequest = .ok req) (hr : t.links.length < rounds) :
    ∃ after after', t.embeddingLoads rounds = some after ∧ t'.embeddingLoads rounds = some after' ∧
      ((∀ l < t.links.length, ∀ side, after.loadTo l side = after'.loadTo l side) ↔
        ∀ l < t.links.length, ∀ side, t.loadTo l side = t'.loadTo l side) := by
  obtain ⟨req', hcopy', hreq⟩ := exists_copyRequest hsame hcopy
  have hshape := sameShape_of_withoutLoads hreq
  have hlen := length_copyRequest hcopy
  have hlen' : req'.links.length = t.links.length := by
    rw [← hlen, ← withoutLoads_length (t := req), hreq, withoutLoads_length]
  have hlength : t'.links.length = t.links.length := by
    rw [← withoutLoads_length, ← hsame, withoutLoads_length]
  have hload := loadTo_of_loads (copyRequest_loads hcopy)
  have hload' := loadTo_of_loads (copyRequest_loads hcopy')
  obtain ⟨fs, hfs⟩ := exists_flows (copyRequest_links hcopy) (by rwa [hlen])
  refine ⟨req.carry fs, req'.carry fs, ?_, ?_, ?_⟩
  · rw [embeddingLoads, hcopy]
    simp only [calculateEdgeLoads_eq, hfs, Option.map_some]
  · rw [embeddingLoads, hcopy']
    simp only [calculateEdgeLoads_eq, hshape.flows, hfs, Option.map_some]
  · refine forall_congr' fun l => imp_congr_right fun hl => forall_congr' fun side => ?_
    have hreq32 : req.Unsigned := fun l hl side => by
      rw [hload]
      exact h32 l (by rwa [← hlen]) side
    have hreq32' : req'.Unsigned := fun l hl side => by
      rw [hload']
      exact h32' l (by rwa [hlength, ← hlen']) side
    rw [loadTo_carry hreq32 (by rwa [hlen]), loadTo_carry hreq32' (by rwa [hlen']), hload, hload']
    have hlt := h32 l hl side
    have hlt' := h32' l (by rwa [hlength]) side
    omega

/-! ### Two hosts -/

/-- The request for the two hosts, as it was embedded: the link has the loads of its two ports. -/
def embeddedPair : MappedTopology where
  nodes := [{ type := "pc", node := "pc1", links := [0] }, { type := "pc", node := "pc2", links := [0] }]
  links := [{
    capacity := 100
    end1 := ⟨0, 0, 0, 100⟩
    end2 := ⟨1, 0, 1, 100⟩
    rload := 100
    lload := 100
    mappedPath := [⟨1, 1000, true⟩, ⟨2, 1000, false⟩] }]

/-- The request for the two hosts with a load of 7 in one direction. -/
def pair : Topology where
  nodes := [{ type := "pc", label := 1, links := [0] }, { type := "pc", label := 2, links := [0] }]
  links := [{ label := 1, capacity := 100, end1 := ⟨0, 0, 0, 100⟩, end2 := ⟨1, 0, 0, 100⟩, rload := 7 }]

theorem pair_unsigned : pair.Unsigned := by
  decide

theorem withoutLoads_unsigned (t : Topology) : t.withoutLoads.Unsigned := by
  intro l hl side
  rw [loadTo, withoutLoads_link]
  cases side <;> exact Nat.two_pow_pos 32

theorem withoutLoads_withoutLoads (t : Topology) : t.withoutLoads.withoutLoads = t.withoutLoads := by
  simp only [withoutLoads, List.map_map]
  rfl

theorem embeddingLoads_pair : pair.withoutLoads = pair.withoutLoads.withoutLoads ∧
    ∃ after after', pair.embeddingLoads 2 = some after ∧ pair.withoutLoads.embeddingLoads 2 = some after' ∧
      ((∀ l < pair.links.length, ∀ side, after.loadTo l side = after'.loadTo l side) ↔
        ∀ l < pair.links.length, ∀ side, pair.loadTo l side = pair.withoutLoads.loadTo l side) :=
  ⟨(withoutLoads_withoutLoads pair).symm, embeddingLoads_eq_iff (withoutLoads_withoutLoads pair).symm pair_unsigned
    (withoutLoads_unsigned pair) rfl (by decide)⟩

/-- The topology that is read back asks for twice the loads. -/
theorem embeddingLoads_readBack : ∃ t : Topology, getTopology twoHosts {} (addReservation embeddedPair) = .ok t ∧
    ¬∀ t' : Topology, t.withoutLoads = t'.withoutLoads → ∀ rounds after after', t.embeddingLoads rounds = some after →
      t'.embeddingLoads rounds = some after' →
        ∀ l < t.links.length, ∀ side, after.loadTo l side = after'.loadTo l side := by
  refine ⟨_, rfl, fun h => ?_⟩
  have hloads := h _ (withoutLoads_withoutLoads _).symm 2 _ _ rfl rfl 0 (by decide) true
  exact absurd hloads (by decide)

end Topology

end OnlDaemons.Onldb
