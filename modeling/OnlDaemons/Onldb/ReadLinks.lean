import OnlDaemons.Onldb.ReadNodes

/-!
# The links that are read back

The rows of the connection schedule come link by link. The first row of a link gives its
capacity and its loads, its row in the link schedule gives the ends, and each row whose first
node is an end gives the real port of that end; a row that belongs to both ends counts for the
first.

## Main definitions

- `realPorts` — the two real ports after the rows of a link
- `Block`, `Made` — the rows of one link and the link that is made from them
-/

namespace OnlDaemons.Onldb

open Lib

/-- The real ports of the two ends after the connections of a link, given by their first node
and its port. -/
def realPorts (name1 name2 : String) (p : ℕ × ℕ) (conns : List (String × ℕ)) : ℕ × ℕ :=
  conns.foldl (fun p c =>
    if name1 = c.1 then (c.2, p.2) else if name2 = c.1 then (p.1, c.2) else p) p

theorem Named.findNode {t : Topology} {ks : List Key} (h : Named t ks) {i : ℕ}
    (hi : i < t.nodes.length) : t.findNode (i + 1) = some i := by
  have hlabel : ∀ j (hj : j < t.nodes.length), t.nodes[j].label = j + 1 := by
    intro j hj
    have := h.label j hj
    rwa [Topology.node, List.getD_eq_getElem _ _ hj] at this
  refine List.findIdx?_eq_some_iff_getElem.mpr ⟨hi, by simp [hlabel], fun j hj => ?_⟩
  simp [hlabel j (by omega)]
  omega

theorem Named.congr {t t' : Topology} {ks : List Key} (h : Named t ks)
    (hlen : t'.nodes.length = t.nodes.length)
    (hnode : ∀ i < t.nodes.length, (t'.node i).label = (t.node i).label ∧
      (t'.node i).key = (t.node i).key) : Named t' ks := by
  refine ⟨?_, fun i hi => ?_⟩
  · rw [← h.keys]
    apply List.ext_getElem
    · simp [hlen]
    · intro i h₁ h₂
      have hi : i < t.nodes.length := by simpa using h₂
      have := (hnode i hi).2
      rw [Topology.node, List.getD_eq_getElem _ _ (by omega), Topology.node,
        List.getD_eq_getElem _ _ hi] at this
      simpa using this
  · rw [hlen] at hi
    rw [(hnode i hi).1]
    exact h.label i hi

namespace Reading

/-- The link made from what was read about it. -/
def made (r : Reading) (linkid i j : ℕ) : LinkResource where
  label := linkid
  capacity := r.cap
  end1 := ⟨i, r.end1.port, r.end1.rport, if r.end1.cap > 0 then r.end1.cap else r.cap⟩
  end2 := ⟨j, r.end2.port, r.end2.rport, if r.end2.cap > 0 then r.end2.cap else r.cap⟩
  rload := r.rload
  lload := r.lload
  conns := r.conns

/-- Both ends of the link are found: they are the nodes `i` and `j`. -/
structure Located (t : Topology) (r : Reading) (i j : ℕ) : Prop where
  lt1 : i < t.nodes.length
  lt2 : j < t.nodes.length
  label1 : r.end1.label = i + 1
  label2 : r.end2.label = j + 1
  name1 : r.end1.name = (t.node i).node
  name2 : r.end2.name = (t.node j).node

/-- What a row does to a link with known ends. -/
def step (r : Reading) (info : LinkInfo) : Reading :=
  { r with
    conns := r.conns ++ [(info.cid : ℤ)]
    end1 := { r.end1 with
      rport := if r.end1.name = info.node1 then info.node1port else r.end1.rport }
    end2 := { r.end2 with
      rport := if r.end1.name ≠ info.node1 ∧ r.end2.name = info.node1 then info.node1port
        else r.end2.rport } }

theorem Located.step {t : Topology} {r : Reading} {i j : ℕ} (h : r.Located t i j)
    (info : LinkInfo) : (r.step info).Located t i j :=
  ⟨h.lt1, h.lt2, h.label1, h.label2, h.name1, h.name2⟩

/-- With known ends, the test by label adds nothing to the test by name. -/
theorem row_eq_step {db : Database} {t : Topology} {ks : List Key} (hn : Named t ks)
    {r : Reading} {i j : ℕ} (h : r.Located t i j) (info : LinkInfo) :
    r.row db t info = .ok (r.step info) := by
  have htest : ∀ {e : EndRead} {k : ℕ}, k < t.nodes.length → e.label = k + 1 →
      e.name = (t.node k).node →
      ((e.label = t.getLabel info.node1 0 ∨ e.name = info.node1) ↔ e.name = info.node1) := by
    intro e k hk hl hname
    constructor
    · rintro (h' | h')
      · rw [hname]
        exact hn.name_of_getLabel hk (hl.symm.trans h').symm
      · exact h'
    · exact Or.inr
  have hl1 := h.label1
  have hl2 := h.label2
  simp only [Reading.row, hl1, hl2, Nat.add_one_ne_zero, or_self, if_false]
  have h1 := htest h.lt1 hl1 h.name1
  have h2 := htest h.lt2 hl2 h.name2
  rw [hl1] at h1
  rw [hl2] at h2
  simp only [h1, h2, Reading.step]
  by_cases hn1 : r.end1.name = info.node1
  · simp [hn1, hl1]
  · by_cases hn2 : r.end2.name = info.node1
    · simp [hn1, hn2, hl2]
    · simp [hn1, hn2]

theorem ends_of_located {db : Database} {t : Topology} {vs : List VswitchRow} {r : Reading}
    {i j : ℕ} (h : r.Located t i j) : r.ends db t vs = some (r.end1, r.end2) := by
  simp [Reading.ends, h.label2]

theorem finish_of_located {db : Database} {tb : Tables} {t t' : Topology} {ks : List Key}
    (hn : Named t ks) {r : Reading} {i j linkid : ℕ} (h : r.Located t i j)
    (hf : r.finish db tb t linkid = .ok t') :
    Named t' ks ∧ t'.links = t.links ++ [r.made linkid i j] := by
  unfold Reading.finish at hf
  rw [ends_of_located h] at hf
  simp only [h.label1, h.label2] at hf
  split at hf
  · cases hf
  rename_i t₁ hadd
  cases hf
  unfold Topology.addLink at hadd
  split at hadd
  · cases hadd
  rw [hn.findNode h.lt1, hn.findNode h.lt2] at hadd
  simp only at hadd
  cases hadd
  refine ⟨hn.congr (by simp) fun k hk => ?_, ?_⟩
  · rw [Topology.node, Topology.getD_pushLink _ _ _ _ (by simpa using hk),
      Topology.getD_pushLink _ _ _ _ hk]
    split <;> split <;> exact ⟨rfl, rfl⟩
  · apply List.ext_getElem
    · simp
    · intro k h₁ h₂
      rw [List.getElem_modify]
      by_cases hk : k < t.links.length
      · rw [List.getElem_append_left hk, List.getElem_append_left hk, if_neg (by simp; omega)]
      · obtain rfl : k = t.links.length := by simp at h₂; omega
        simp [Reading.made]

end Reading

/-- The rows of one link, all with its number, and its row in the link schedule with ends that
are found. -/
structure Block (ks : List Key) (vps : List LinkRow) (num : ℕ) (rows : List LinkInfo) : Prop where
  ne : rows ≠ []
  linkid : ∀ row ∈ rows, row.linkid = num
  found : ∃ v, vps.find? (fun v => v.linkid = num) = some v ∧
    (∃ k, ks.find? (fun k => k.Answers v.node1 v.node1vmid) = some k) ∧
    ∃ k, ks.find? (fun k => k.Answers v.node2 v.node2vmid) = some k

/-- The link made from the rows of a block, with the real ports `p` to begin with. -/
structure Made (ks : List Key) (vps : List LinkRow) (p : ℕ × ℕ) (num : ℕ) (rows : List LinkInfo)
    (m : LinkResource) : Prop where
  row : ∃ row, rows.head? = some row ∧ m.capacity = row.capacity ∧ m.rload = row.rload ∧
    m.lload = row.lload
  ends : ∃ v, vps.find? (fun v => v.linkid = num) = some v ∧
    ks[m.end1.node]? = ks.find? (fun k => k.Answers v.node1 v.node1vmid) ∧
    ks[m.end2.node]? = ks.find? (fun k => k.Answers v.node2 v.node2vmid) ∧
    m.end1.rport = (realPorts v.node1 v.node2 p (rows.map (fun r => (r.node1, r.node1port)))).1 ∧
    m.end2.rport = (realPorts v.node1 v.node2 p (rows.map (fun r => (r.node1, r.node1port)))).2

/-- What the steps of a block do to the ports, and what they leave alone. -/
theorem Reading.foldl_step (rows : List LinkInfo) (r : Reading) :
    (((rows.foldl Reading.step r).end1.rport, (rows.foldl Reading.step r).end2.rport) =
      realPorts r.end1.name r.end2.name (r.end1.rport, r.end2.rport)
        (rows.map (fun r => (r.node1, r.node1port)))) ∧
    (rows.foldl Reading.step r).link = r.link ∧ (rows.foldl Reading.step r).cap = r.cap ∧
    (rows.foldl Reading.step r).rload = r.rload ∧ (rows.foldl Reading.step r).lload = r.lload := by
  induction rows generalizing r with
  | nil => exact ⟨rfl, rfl, rfl, rfl, rfl⟩
  | cons info rows ih =>
    obtain ⟨h1, h2, h3, h4, h5⟩ := ih (r.step info)
    refine ⟨?_, h2, h3, h4, h5⟩
    rw [List.foldl_cons, h1]
    unfold realPorts
    rw [List.map_cons, List.foldl_cons]
    congr 1
    by_cases hn1 : r.end1.name = info.node1
    · simp [Reading.step, hn1]
    · by_cases hn2 : r.end2.name = info.node1
      · simp [Reading.step, hn1, hn2]
      · simp [Reading.step, hn1, hn2]

theorem Reading.Located.foldl {t : Topology} {r : Reading} {i j : ℕ} (h : r.Located t i j)
    (rows : List LinkInfo) : (rows.foldl Reading.step r).Located t i j := by
  induction rows generalizing r with
  | nil => exact h
  | cons info rows ih => exact ih (h.step info)

/-- The rows of the current link are taken one by one. -/
theorem readLinks_append {db : Database} {tb : Tables} {vps : List LinkRow} {t : Topology}
    {ks : List Key} (hn : Named t ks) {r : Reading} {i j : ℕ} (h : r.Located t i j)
    {rows rest : List LinkInfo} (hid : ∀ row ∈ rows, row.linkid = r.link) (k : ℕ) :
    readLinks db tb vps (rows ++ rest) k r t =
      readLinks db tb vps rest k (rows.foldl Reading.step r) t := by
  induction rows generalizing r with
  | nil => rfl
  | cons info rows ih =>
    have hlink : ¬r.link ≠ info.linkid := by
      rw [hid info List.mem_cons_self]
      simp
    rw [List.cons_append, readLinks, if_neg hlink, Reading.row_eq_step hn h]
    exact ih (h.step info) (fun row hrow => hid row (List.mem_cons_of_mem _ hrow))

/-- A block read from the start. -/
theorem Block.read (db : Database) (tb : Tables) {vps : List LinkRow} {t : Topology}
    {ks : List Key} (hn : Named t ks) {num : ℕ} {rows : List LinkInfo} (hb : Block ks vps num rows)
    (s : Reading) (hid : s.link = num) {row : LinkInfo} (hrow : rows.head? = some row)
    (hcap : s.cap = row.capacity) (hr : s.rload = row.rload) (hl : s.lload = row.lload) :
    ∃ i j, (rows.foldl Reading.step (s.lookup t vps)).Located t i j ∧
      (rows.foldl Reading.step (s.lookup t vps)).link = num ∧
      (∀ k, Made ks vps (s.end1.rport, s.end2.rport) num rows
        ((rows.foldl Reading.step (s.lookup t vps)).made k i j)) ∧
      ∀ rest k, readLinks db tb vps (rows ++ rest) k (s.lookup t vps) t =
        readLinks db tb vps rest k (rows.foldl Reading.step (s.lookup t vps)) t := by
  obtain ⟨v, hv, ⟨k1, hk1⟩, ⟨k2, hk2⟩⟩ := hb.found
  obtain ⟨i, hi, hli, hki⟩ := hn.getLabel hk1
  obtain ⟨j, hj, hlj, hkj⟩ := hn.getLabel hk2
  have hname : ∀ {k : Key} {name : String} {vmid : ℕ},
      ks.find? (fun k => k.Answers name vmid) = some k → k.1 = name := by
    intro k name vmid hk
    have := List.find?_some hk
    exact (decide_eq_true_iff.mp this).1
  have hlook : s.lookup t vps =
      { s with
        end1 := { s.end1 with label := i + 1, port := v.port1, name := v.node1,
                              cap := v.port1capacity }
        end2 := { s.end2 with label := j + 1, port := v.port2, name := v.node2,
                              cap := v.port2capacity } } := by
    simp [Reading.lookup, hid, hv, hli, hlj]
  have hloc : (s.lookup t vps).Located t i j := by
    rw [hlook]
    refine ⟨hi, hj, rfl, rfl, ?_, ?_⟩
    · exact (hname hk1).symm.trans (congrArg Prod.fst hki).symm
    · exact (hname hk2).symm.trans (congrArg Prod.fst hkj).symm
  obtain ⟨hports, hflink, hfcap, hfr, hfl⟩ := Reading.foldl_step rows (s.lookup t vps)
  have hl₀ : (s.lookup t vps).link = num := by
    rw [hlook]
    exact hid
  have hports' := hports
  rw [show (s.lookup t vps).end1.name = v.node1 by rw [hlook],
    show (s.lookup t vps).end2.name = v.node2 by rw [hlook],
    show (s.lookup t vps).end1.rport = s.end1.rport by rw [hlook],
    show (s.lookup t vps).end2.rport = s.end2.rport by rw [hlook]] at hports'
  have hports₁ := congrArg Prod.fst hports'
  have hports₂ := congrArg Prod.snd hports'
  refine ⟨i, j, hloc.foldl rows, hflink.trans hl₀, fun k => ⟨⟨row, hrow, ?_, ?_, ?_⟩, v, hv,
    ?_, ?_, ?_, ?_⟩, fun rest k => ?_⟩
  · exact hfcap.trans (by rw [hlook]; exact hcap)
  · exact hfr.trans (by rw [hlook]; exact hr)
  · exact hfl.trans (by rw [hlook]; exact hl)
  · rw [hk1, ← hki]
    exact hn.key hi
  · rw [hk2, ← hkj]
    exact hn.key hj
  · exact congrArg Nat.cast hports₁
  · exact congrArg Nat.cast hports₂
  · exact readLinks_append hn hloc (fun x hx => (hb.linkid x hx).trans hl₀.symm) k

/-- The blocks that come after the current link. -/
theorem readLinks_blocks {db : Database} {tb : Tables} {vps : List LinkRow} {ks : List Key}
    {bs : List (ℕ × List LinkInfo)} (hbs : ∀ b ∈ bs, Block ks vps b.1 b.2) {r : Reading}
    {t t' : Topology} {i j k : ℕ} (hchain : List.IsChain (· ≠ ·) (r.link :: bs.map Prod.fst))
    (hn : Named t ks) (hloc : r.Located t i j)
    (h : readLinks db tb vps (bs.flatMap Prod.snd) k r t = .ok t') :
    Named t' ks ∧ ∃ ms, t'.links = t.links ++ r.made k i j :: ms ∧
      List.Forall₂ (fun b m => Made ks vps (0, 0) b.1 b.2 m) bs ms := by
  induction bs generalizing r t i j k with
  | nil =>
    obtain ⟨hn', hl⟩ := Reading.finish_of_located hn hloc h
    exact ⟨hn', [], hl, List.Forall₂.nil⟩
  | cons b bs ih =>
    have hb := hbs b List.mem_cons_self
    obtain ⟨row, rest, hrows⟩ := List.exists_cons_of_ne_nil hb.ne
    have hrowid : row.linkid = b.1 := hb.linkid row (by rw [hrows]; exact List.mem_cons_self)
    rw [List.map_cons, List.isChain_cons_cons] at hchain
    rw [List.flatMap_cons, hrows, List.cons_append, readLinks,
      if_pos (by rw [hrowid]; exact hchain.1)] at h
    cases hfin : r.finish db tb t k with
    | error e => simp [hfin, bind, Except.bind] at h
    | ok t₁ =>
      obtain ⟨hn₁, hl₁⟩ := Reading.finish_of_located hn hloc hfin
      -- the row that begins the block is taken like the others once the block is looked up
      obtain ⟨i', j', hloc', hlink', hmade, hread⟩ := hb.read db tb hn₁
        (r.next row) hrowid (by rw [hrows, List.head?_cons]) rfl rfl rfl
      have hsame : readLinks db tb vps (b.2 ++ bs.flatMap Prod.snd) (k + 1)
          ((r.next row).lookup t₁ vps) t₁ = .ok t' := by
        have hlk : ¬((r.next row).lookup t₁ vps).link ≠ row.linkid := by
          unfold Reading.lookup
          split <;> simp [Reading.next]
        rw [hrows, List.cons_append, readLinks, if_neg hlk]
        simpa [hfin, bind, Except.bind] using h
      rw [hread] at hsame
      obtain ⟨hn', ms, hlinks, hall⟩ := ih (fun b hb => hbs b (List.mem_cons_of_mem _ hb))
        (by rw [hlink']; exact hchain.2) hn₁ hloc' hsame
      refine ⟨hn', _ :: ms, ?_, List.Forall₂.cons (hmade (k + 1)) hall⟩
      rw [hlinks, hl₁, List.append_assoc, List.singleton_append]

/-- All blocks of a reservation; only the first begins with uninitialised ports. -/
theorem readLinks_all {db : Database} {tb : Tables} {u : Uninitialised} {vps : List LinkRow}
    {ks : List Key} {b : ℕ × List LinkInfo} {bs : List (ℕ × List LinkInfo)}
    (hb : Block ks vps b.1 b.2) (hbs : ∀ b ∈ bs, Block ks vps b.1 b.2) {t t' : Topology}
    (hchain : List.IsChain (· ≠ ·) ((b :: bs).map Prod.fst)) (hn : Named t ks) {row : LinkInfo}
    (hrow : b.2.head? = some row)
    (h : readLinks db tb vps ((b :: bs).flatMap Prod.snd) 1 ((Reading.first u row).lookup t vps) t =
      .ok t') :
    Named t' ks ∧ ∃ m ms, t'.links = t.links ++ m :: ms ∧
      Made ks vps (u.rport1, u.rport2) b.1 b.2 m ∧
      List.Forall₂ (fun b m => Made ks vps (0, 0) b.1 b.2 m) bs ms := by
  have hrowid : row.linkid = b.1 := hb.linkid row (List.mem_of_mem_head? hrow)
  obtain ⟨i, j, hloc, hlink, hmade, hread⟩ := hb.read db tb hn
    (Reading.first u row) hrowid hrow rfl rfl rfl
  rw [List.flatMap_cons, hread] at h
  obtain ⟨hn', ms, hlinks, hall⟩ := readLinks_blocks hbs (by rw [hlink]; exact hchain) hn hloc h
  exact ⟨hn', _, ms, hlinks, hmade 1, hall⟩

end OnlDaemons.Onldb
