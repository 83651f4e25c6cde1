import OnlDaemons.Crd.CrdRequests
import OnlDaemons.Shared.OnlResponses

/-!
# Creating a message from received bytes

The dispatcher looks at the type and operation of the received bytes, copies them into the
buffer of a message of the class registered for them, and has the message parse itself. Neither
step asks how many bytes there are, so a message that announces more than it brings is read past
its end.

## Main definitions

- `RequestClass`, `ResponseClass` — the classes of the daemons, with what each parses
- `createMessage` — `dispatcher::create_message`
- `ReadsInside` — only received bytes are read, and no loop is longer than the message
- `Announced` — the bytes bring all that they announce
-/

namespace OnlDaemons.Dispatcher

open OnlDaemons.Lib OnlDaemons.Shared OnlDaemons.Crd

/-! ### The classes -/

/-- The request classes the daemons register, each requests of one operation. All requests of
the user's interface to a component are parsed as `rli_request`. -/
inductive RequestClass where
  | ping_req | i_am_up
  | start_experiment | end_experiment | refresh | configure_node | end_configure_node
  | rli_request | rli_relay_req | crd_relay_req
  | start_session | end_session | add_vlan | delete_vlan | add_to_vlan | delete_from_vlan
  | initialize_req
  | begin_session_req | session_add_component_req | session_add_cluster_req
  | session_add_link_req | commit_session_req | clear_session_req
  | begin_reservation_req | reservation_add_component_req | reservation_add_cluster_req
  | reservation_add_link_req | commit_reservation_req
  | extend_reservation_req | cancel_reservation_req
  | add_observer_req | get_observable_req | observe_session_req | grant_observe_req
  | get_plugins_req
deriving DecidableEq, Repr

/-- What a received request holds. -/
inductive RequestMsg where
  | request (r : Request)
  | i_am_up (r : IAmUp)
  | crd_request (r : CrdRequest)
  | start_experiment (r : StartExperiment)
  | refresh (r : Refresh)
  | configure_node (r : ConfigureNode)
  | rli_request (r : RliRequest)
  | relay_req (r : RelayRequest)
  | switch_request (r : SwitchRequest)
  | delete_vlan (r : DeleteVlan)
  | port_request (r : PortRequest)
  | initialize_req (r : Initialize)
  | rlicrd_request (r : RlicrdRequest)
  | begin_session_req (r : BeginSessionReq)
  | add_component_req (r : AddComponentReq)
  | add_link_req (r : AddLinkReq)
  | string_req (r : StringReq)
  | begin_reservation_req (r : BeginReservationReq)
  | extend_reservation_req (r : ExtendReservationReq)
  | user_req (r : UserReq)
  | add_observer_req (r : AddObserverReq)
  | observe_req (r : ObserveReq)
deriving DecidableEq, Repr

namespace RequestClass

/-- The parse function of the class. The relayed classes copy all bytes up to the size of the
message. -/
def parse (size : ℕ) : RequestClass → Decoder RequestMsg
  | ping_req => do
    let r ← Request.parse
    pure (.request r)
  | i_am_up => do
    let r ← IAmUp.parse
    pure (.i_am_up r)
  | end_experiment | end_configure_node => do
    let r ← CrdRequest.parse
    pure (.crd_request r)
  | start_experiment => do
    let r ← StartExperiment.parse
    pure (.start_experiment r)
  | refresh => do
    let r ← Refresh.parse
    pure (.refresh r)
  | configure_node => do
    let r ← ConfigureNode.parse
    pure (.configure_node r)
  | rli_request => do
    let r ← RliRequest.parse
    pure (.rli_request r)
  | rli_relay_req | crd_relay_req => do
    let r ← RelayRequest.parse size
    pure (.relay_req r)
  | start_session | end_session | add_vlan => do
    let r ← SwitchRequest.parse
    pure (.switch_request r)
  | delete_vlan => do
    let r ← DeleteVlan.parse
    pure (.delete_vlan r)
  | add_to_vlan | delete_from_vlan => do
    let r ← PortRequest.parse
    pure (.port_request r)
  | initialize_req => do
    let r ← Initialize.parse
    pure (.initialize_req r)
  | begin_session_req => do
    let r ← BeginSessionReq.parse
    pure (.begin_session_req r)
  | session_add_component_req | reservation_add_component_req => do
    let r ← AddComponentReq.parse
    pure (.add_component_req r)
  | session_add_cluster_req | reservation_add_cluster_req => do
    let r ← RlicrdRequest.parse
    pure (.rlicrd_request r)
  | session_add_link_req | reservation_add_link_req => do
    let r ← AddLinkReq.parse
    pure (.add_link_req r)
  | commit_session_req | clear_session_req | commit_reservation_req | get_plugins_req => do
    let r ← StringReq.parse
    pure (.string_req r)
  | begin_reservation_req => do
    let r ← BeginReservationReq.parse
    pure (.begin_reservation_req r)
  | extend_reservation_req => do
    let r ← ExtendReservationReq.parse
    pure (.extend_reservation_req r)
  | cancel_reservation_req | get_observable_req => do
    let r ← UserReq.parse
    pure (.user_req r)
  | add_observer_req => do
    let r ← AddObserverReq.parse
    pure (.add_observer_req r)
  | observe_session_req | grant_observe_req => do
    let r ← ObserveReq.parse
    pure (.observe_req r)

/-- The bytes a request of the class announces. -/
def layout : RequestClass → Layout
  | ping_req | rli_relay_req | crd_relay_req => requestLayout fun _ => Layout.none
  | i_am_up => IAmUp.layout
  | end_experiment | end_configure_node => crdRequestLayout []
  | start_experiment => StartExperiment.layout
  | refresh => Refresh.layout
  | configure_node => ConfigureNode.layout
  | rli_request => RliRequest.layout
  | start_session | end_session | add_vlan => switchRequestLayout []
  | delete_vlan => DeleteVlan.layout
  | add_to_vlan | delete_from_vlan => PortRequest.layout
  | initialize_req => Initialize.layout
  | begin_session_req => BeginSessionReq.layout
  | session_add_component_req | reservation_add_component_req => AddComponentReq.layout
  | session_add_cluster_req | reservation_add_cluster_req =>
    rlicrdRequestLayout fun _ => Layout.none
  | session_add_link_req | reservation_add_link_req => AddLinkReq.layout
  | commit_session_req | clear_session_req | commit_reservation_req | get_plugins_req =>
    StringReq.layout
  | begin_reservation_req => BeginReservationReq.layout
  | extend_reservation_req => ExtendReservationReq.layout
  | cancel_reservation_req | get_observable_req => UserReq.layout
  | add_observer_req => AddObserverReq.layout
  | observe_session_req | grant_observe_req => ObserveReq.layout

theorem follows_parse {size : ℕ} (hsize : size < 2 ^ 32) (c : RequestClass) :
    FollowsUpTo size (c.parse size) c.layout := by
  cases c with
  | rli_relay_req | crd_relay_req => exact (RelayRequest.followsUpTo_parse hsize).map _
  | ping_req => exact (follows_request fun r => follows_pure (RequestMsg.request r)).upTo hsize
  | i_am_up => exact (IAmUp.follows_parse.map _).upTo hsize
  | end_experiment | end_configure_node =>
    exact (follows_crdRequest fun r => follows_pure (RequestMsg.crd_request r)).upTo hsize
  | start_experiment => exact (StartExperiment.follows_parse.map _).upTo hsize
  | refresh => exact (Refresh.follows_parse.map _).upTo hsize
  | configure_node => exact (ConfigureNode.follows_parse.map _).upTo hsize
  | rli_request => exact (RliRequest.follows_parse.map _).upTo hsize
  | start_session | end_session | add_vlan =>
    exact (follows_switchRequest fun r => follows_pure (RequestMsg.switch_request r)).upTo hsize
  | delete_vlan => exact (DeleteVlan.follows_parse.map _).upTo hsize
  | add_to_vlan | delete_from_vlan => exact (PortRequest.follows_parse.map _).upTo hsize
  | initialize_req => exact (Initialize.follows_parse.map _).upTo hsize
  | begin_session_req => exact (BeginSessionReq.follows_parse.map _).upTo hsize
  | session_add_component_req | reservation_add_component_req =>
    exact (AddComponentReq.follows_parse.map _).upTo hsize
  | session_add_cluster_req | reservation_add_cluster_req =>
    exact (follows_rlicrdRequest fun r => follows_pure (RequestMsg.rlicrd_request r)).upTo hsize
  | session_add_link_req | reservation_add_link_req => exact (AddLinkReq.follows_parse.map _).upTo hsize
  | commit_session_req | clear_session_req | commit_reservation_req | get_plugins_req =>
    exact (StringReq.follows_parse.map _).upTo hsize
  | begin_reservation_req => exact (BeginReservationReq.follows_parse.map _).upTo hsize
  | extend_reservation_req => exact (ExtendReservationReq.follows_parse.map _).upTo hsize
  | cancel_reservation_req | get_observable_req => exact (UserReq.follows_parse.map _).upTo hsize
  | add_observer_req => exact (AddObserverReq.follows_parse.map _).upTo hsize
  | observe_session_req | grant_observe_req => exact (ObserveReq.follows_parse.map _).upTo hsize

end RequestClass

inductive ResponseClass where
  | crd_response | crd_hwresponse | crd_endconfig_response | rli_response
  | switch_response | add_vlan_response
deriving DecidableEq, Repr

inductive ResponseMsg where
  | crd_response (r : CrdResponse)
  | crd_hwresponse (r : CrdHwresponse)
  | crd_endconfig_response (r : CrdEndconfigResponse)
  | rli_response (r : RliResponse)
  | switch_response (r : SwitchResponse)
  | add_vlan_response (r : AddVlanResponse)
deriving DecidableEq, Repr

namespace ResponseClass

def parse : ResponseClass → Decoder ResponseMsg
  | crd_response => do
    let r ← CrdResponse.parse
    pure (.crd_response r)
  | crd_hwresponse => do
    let r ← CrdHwresponse.parse
    pure (.crd_hwresponse r)
  | crd_endconfig_response => do
    let r ← CrdEndconfigResponse.parse
    pure (.crd_endconfig_response r)
  | rli_response => do
    let r ← RliResponse.parse
    pure (.rli_response r)
  | switch_response => do
    let r ← SwitchResponse.parse
    pure (.switch_response r)
  | add_vlan_response => do
    let r ← AddVlanResponse.parse
    pure (.add_vlan_response r)

def layout : ResponseClass → Layout
  | crd_response => crdResponseLayout []
  | crd_hwresponse => CrdHwresponse.layout
  | crd_endconfig_response => CrdEndconfigResponse.layout
  | rli_response => RliResponse.layout
  | switch_response => SwitchResponse.layout
  | add_vlan_response => AddVlanResponse.layout

theorem follows_parse (c : ResponseClass) : Follows c.parse c.layout := by
  cases c with
  | crd_response => exact follows_crdResponse fun r => follows_pure (ResponseMsg.crd_response r)
  | crd_hwresponse => exact CrdHwresponse.follows_parse.map _
  | crd_endconfig_response => exact CrdEndconfigResponse.follows_parse.map _
  | rli_response => exact RliResponse.follows_parse.map _
  | switch_response => exact SwitchResponse.follows_parse.map _
  | add_vlan_response => exact AddVlanResponse.follows_parse.map _

end ResponseClass

/-! ### The dispatcher -/

/-- The class registered for each operation, if there is one. -/
structure Registry where
  req_map : UInt8 → Option RequestClass
  resp_map : UInt8 → Option ResponseClass

inductive Created where
  | request (r : RequestMsg)
  | response (r : ResponseMsg)
  | periodic (p : Periodic)
deriving DecidableEq, Repr

/-- The constructor of a message, which copies the received bytes to its buffer and goes back to
the start. A message that fills the new buffer is given one of its own size. -/
def receive (bytes : List UInt8) (hlen : bytes.length < 2 ^ 32) (garbage : ℕ → UInt8) :
    Option ByteBuffer := do
  let buf := ByteBuffer.new garbage
  let buf := if buf.num_bytes_allocated ≤ bytes.length then buf.resize bytes.length hlen garbage
    else buf
  let (_, buf) ← (putEach putU8 bytes).run buf
  pure buf.reset

/-- What was read when the class is known: the first bytes. -/
def peeked : Cursor := { pos := 0, seen := [0, 1, 3], trips := [] }

/-- The new message parses itself. Its constructor has read each received byte once. -/
def construct {α : Type} (parse : Decoder α) (mk : α → Created) (bytes : List UInt8)
    (hlen : bytes.length < 2 ^ 32) (garbage : ℕ → UInt8) : Option Created × Cursor :=
  match receive bytes hlen garbage with
  | none => (none, peeked)
  | some buf =>
    let r := parse buf.buffer_data
      { pos := buf.cur_index
        seen := peeked.seen ++ List.range bytes.length
        trips := peeked.trips ++ [bytes.length] }
    (some (mk r.1), r.2)

/-- `dispatcher::create_message`. Behind the received bytes memory holds `stale` bytes, and a new
buffer holds `garbage`. The cursor records what was read of the received bytes, there or in the
message's own buffer, and the loops on the way. -/
def createMessage (reg : Registry) (bytes : List UInt8) (hlen : bytes.length < 2 ^ 32)
    (stale garbage : ℕ → UInt8) : Option Created × Cursor :=
  let mbuf := store stale 0 bytes
  let type := bigEndian (window mbuf 0 2)
  let op := mbuf 3
  if type = NCCP_MessageRequest.toNat then
    match reg.req_map op with
    | none => (none, peeked)
    | some c => construct (c.parse bytes.length) Created.request bytes hlen garbage
  else if type = NCCP_MessageResponse.toNat then
    match reg.resp_map op with
    | none => (none, peeked)
    | some c => construct c.parse Created.response bytes hlen garbage
  else if type = NCCP_MessagePeriodic.toNat then
    construct Periodic.parse Created.periodic bytes hlen garbage
  else (none, peeked)

/-- Only received bytes were read, and no loop went round more often than there are bytes. -/
structure ReadsInside (size : ℕ) (c : Cursor) : Prop where
  seen : ∀ p ∈ c.seen, p < size
  trips : ∀ t ∈ c.trips, t ≤ size

/-- The layout of the class the type and operation of the bytes select, if there is one. -/
def layoutOf (reg : Registry) (bytes : List UInt8) : Option Layout :=
  let type := bigEndian (bytes.take 2)
  if type = NCCP_MessageRequest.toNat then (reg.req_map (bytes.getD 3 0)).map RequestClass.layout
  else if type = NCCP_MessageResponse.toNat then
    (reg.resp_map (bytes.getD 3 0)).map ResponseClass.layout
  else if type = NCCP_MessagePeriodic.toNat then some Periodic.layout
  else none

/-- There are type and operation, and if they select a class then there is all the rest that its
fields, with their own lengths and counts, announce. -/
def Announced (reg : Registry) (bytes : List UInt8) : Prop :=
  4 ≤ bytes.length ∧ ∀ l, layoutOf reg bytes = some l → (l bytes).isSome

/-! ### What is read -/

theorem receive_eq (bytes : List UInt8) (hlen : bytes.length < 2 ^ 32) (garbage : ℕ → UInt8) :
    ∃ buf, receive bytes hlen garbage = some buf ∧ buf.cur_index = 0 ∧
      buf.buffer_data = store garbage 0 bytes := by
  have hput : ∀ buf : ByteBuffer, buf.cur_index = 0 → bytes.length ≤ buf.num_bytes_allocated →
      buf.buffer_data = garbage → ∃ buf', (do
        let (_, b) ← (putEach putU8 bytes).run buf
        pure b.reset) = some buf' ∧ buf'.cur_index = 0 ∧
        buf'.buffer_data = store garbage 0 bytes := by
    intro buf hcur hle hdata
    obtain ⟨buf', hbuf', -, -, hdata'⟩ := put_of_le bytes buf (by omega)
    refine ⟨buf'.reset, ?_, rfl, ?_⟩
    · rw [putEach_putU8, StateT.run, hbuf']
      rfl
    · rw [hcur, hdata] at hdata'
      exact hdata'
  by_cases hbig : (ByteBuffer.new garbage).num_bytes_allocated ≤ bytes.length
  · have hsize : ((ByteBuffer.new garbage).resize bytes.length hlen garbage).cur_index = 0 ∧
        bytes.length ≤
          ((ByteBuffer.new garbage).resize bytes.length hlen garbage).num_bytes_allocated ∧
        ((ByteBuffer.new garbage).resize bytes.length hlen garbage).buffer_data = garbage := by
      rw [ByteBuffer.resize]
      split
      · exact ⟨rfl, le_rfl, rfl⟩
      · next h => exact ⟨rfl, Nat.le_of_not_lt h, rfl⟩
    have h := hput _ hsize.1 hsize.2.1 hsize.2.2
    rwa [receive, if_pos hbig]
  · have h := hput (ByteBuffer.new garbage) rfl (Nat.le_of_not_le hbig) rfl
    rwa [receive, if_neg hbig]

/-- The parse stays inside the bytes exactly if there are the four that were peeked at, and all
those its layout takes. -/
theorem construct_inside {α : Type} {parse : Decoder α} {l : Layout} {bytes : List UInt8}
    (hlen : bytes.length < 2 ^ 32) (h : FollowsUpTo bytes.length parse l) (mk : α → Created)
    (garbage : ℕ → UInt8) :
    ReadsInside bytes.length (construct parse mk bytes hlen garbage).2 ↔
      4 ≤ bytes.length ∧ (l bytes).isSome := by
  obtain ⟨buf, hbuf, hcur, hdata⟩ := receive_eq bytes hlen garbage
  have hwin : window buf.buffer_data 0 (bytes.length - 0) = bytes := by
    rw [hdata]
    exact holds_store garbage 0 bytes
  simp only [construct, hbuf, hcur]
  set c : Cursor :=
    { pos := 0
      seen := peeked.seen ++ List.range bytes.length
      trips := peeked.trips ++ [bytes.length] } with hc
  have hkeep := h.keeps buf.buffer_data c 3 (List.mem_append_left _ (by decide))
  constructor
  · intro hin
    have hfour := hin.seen 3 hkeep
    refine ⟨hfour, ?_⟩
    cases hl : l bytes with
    | some k => rfl
    | none =>
      obtain ⟨p, hp, hle⟩ := h.overruns buf.buffer_data c (Nat.zero_le _) (hwin.symm ▸ hl)
      have hlt := hin.seen p hp
      omega
  · rintro ⟨hfour, hl⟩
    obtain ⟨k, hk⟩ := Option.isSome_iff_exists.mp hl
    have hin := h.fits buf.buffer_data c k (Nat.zero_le _) (hwin.symm ▸ hk)
    refine ⟨fun p hp => (hin.seen p hp).elim (fun hold => ?_) id, fun t ht =>
      (hin.trips t ht).elim (fun hold => ?_) id⟩
    · rcases List.mem_append.mp hold with hpeek | hcopy
      · have hsmall : ∀ q ∈ peeked.seen, q < 4 := by decide
        exact Nat.lt_of_lt_of_le (hsmall p hpeek) hfour
      · exact List.mem_range.mp hcopy
    · exact Nat.le_of_eq (List.mem_singleton.mp hold)

theorem peeked_inside (n : ℕ) : ReadsInside n peeked ↔ 4 ≤ n := by
  constructor
  · intro h
    exact h.seen 3 (by decide)
  · intro h
    have hsmall : ∀ q ∈ peeked.seen, q < 4 := by decide
    exact ⟨fun p hp => Nat.lt_of_lt_of_le (hsmall p hp) h, fun t ht => absurd ht List.not_mem_nil⟩

theorem createMessage_four {reg : Registry} {bytes : List UInt8} {hlen : bytes.length < 2 ^ 32}
    {stale garbage : ℕ → UInt8}
    (h : ReadsInside bytes.length (createMessage reg bytes hlen stale garbage).2) :
    4 ≤ bytes.length := by
  simp only [createMessage] at h
  split at h
  · split at h
    · exact (peeked_inside _).mp h
    · next c _ => exact ((construct_inside hlen (c.follows_parse hlen) _ _).mp h).1
  · split at h
    · split at h
      · exact (peeked_inside _).mp h
      · next c _ => exact ((construct_inside hlen (c.follows_parse.upTo hlen) _ _).mp h).1
    · split at h
      · exact ((construct_inside hlen (Periodic.follows_parse.upTo hlen) _ _).mp h).1
      · exact (peeked_inside _).mp h

/-- What is peeked at are the received type and operation. -/
theorem peek_eq {bytes : List UInt8} (h : 4 ≤ bytes.length) (stale : ℕ → UInt8) :
    window (store stale 0 bytes) 0 2 = bytes.take 2 ∧ store stale 0 bytes 3 = bytes.getD 3 0 := by
  constructor
  · have htake := take_window (store stale 0 bytes) 0 (k := 2) (m := bytes.length) (by omega)
    have hall : window (store stale 0 bytes) 0 bytes.length = bytes := holds_store stale 0 bytes
    rw [← htake, hall]
  · rw [store, if_pos (Nat.zero_le 3), List.getD_eq_getElem bytes _ h,
      List.getD_eq_getElem bytes _ h]

theorem createMessage_request {reg : Registry} {bytes : List UInt8} (hlen : bytes.length < 2 ^ 32)
    (stale garbage : ℕ → UInt8) {c : RequestClass} (hfour : 4 ≤ bytes.length)
    (htype : bigEndian (bytes.take 2) = NCCP_MessageRequest.toNat)
    (hop : reg.req_map (bytes.getD 3 0) = some c) :
    createMessage reg bytes hlen stale garbage =
      construct (c.parse bytes.length) Created.request bytes hlen garbage := by
  obtain ⟨htype', hop'⟩ := peek_eq hfour stale
  simp only [createMessage, htype', hop', htype, hop, if_true]

/-- The creation of a message from any bytes, whatever classes are registered and whatever stands
behind the bytes, reads inside the bytes with bounded loops exactly if the bytes bring all that
they announce. -/
theorem createMessage_inside_iff (reg : Registry) (bytes : List UInt8)
    (hlen : bytes.length < 2 ^ 32) (stale garbage : ℕ → UInt8) :
    ReadsInside bytes.length (createMessage reg bytes hlen stale garbage).2 ↔
      Announced reg bytes := by
  by_cases hfour : 4 ≤ bytes.length
  case neg => exact ⟨fun h => absurd (createMessage_four h) hfour, fun h => absurd h.1 hfour⟩
  obtain ⟨htype, hop⟩ := peek_eq hfour stale
  have hpeek : ReadsInside bytes.length peeked := (peeked_inside _).mpr hfour
  simp only [createMessage, Announced, layoutOf, htype, hop, hfour, true_and]
  split
  · cases reg.req_map (bytes.getD 3 0) with
    | none => simpa using hpeek
    | some c => simp [construct_inside hlen (c.follows_parse hlen), hfour]
  · split
    · cases reg.resp_map (bytes.getD 3 0) with
      | none => simpa using hpeek
      | some c => simp [construct_inside hlen (c.follows_parse.upTo hlen), hfour]
    · split
      · simp [construct_inside hlen (Periodic.follows_parse.upTo hlen), hfour]
      · simpa using hpeek

/-- The registrations of a daemon that only hears of others coming up. -/
def upRegistry : Registry where
  req_map := fun op => if op = 57 then some .i_am_up else none
  resp_map := fun _ => none

/-- The header of an `i_am_up` request and a string length of five. -/
def upHeader : List UInt8 := [0, 1, 0, 57] ++ List.replicate 28 0 ++ [0, 0] ++ [0, 0, 0, 5]

theorem layoutOf_up (rest : List UInt8) :
    layoutOf upRegistry (upHeader ++ rest) = some IAmUp.layout := by
  have htype : bigEndian ((upHeader ++ rest).take 2) = 1 := rfl
  have hop : (upHeader ++ rest).getD 3 0 = 57 := rfl
  simp only [layoutOf, htype, hop]
  rfl

/-- With the five characters the request is read inside its bytes. -/
theorem upRequest_inside :
    ReadsInside (upHeader ++ [110, 112, 114, 46, 49]).length
      (createMessage upRegistry (upHeader ++ [110, 112, 114, 46, 49]) (by decide)
        (fun _ => 255) (fun _ => 255)).2 := by
  refine (createMessage_inside_iff upRegistry _ _ _ _).mpr ⟨by decide, fun l hl => ?_⟩
  rw [layoutOf_up, Option.some_inj] at hl
  rw [← hl]
  decide

/-- Without them it is not. -/
theorem upHeader_not_inside :
    ¬ ∀ (reg : Registry) (bytes : List UInt8) (hlen : bytes.length < 2 ^ 32)
      (stale garbage : ℕ → UInt8),
      ReadsInside bytes.length (createMessage reg bytes hlen stale garbage).2 := by
  intro h
  have hup := h upRegistry upHeader (by decide) (fun _ => 0) (fun _ => 0)
  rw [createMessage_request (c := .i_am_up) _ _ _ (by decide) (by decide) (by decide),
    construct_inside _ (RequestClass.follows_parse (by decide) .i_am_up)] at hup
  have hnot : (IAmUp.layout upHeader).isSome = false := by decide
  exact absurd hup.2 (by rw [RequestClass.layout, hnot]; decide)

end OnlDaemons.Dispatcher
