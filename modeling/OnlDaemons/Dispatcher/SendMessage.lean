import OnlDaemons.Crd.CrdResponses
import OnlDaemons.Shared.OnlResponses
import OnlDaemons.Shared.RoundTrip

/-!
# Writing a message into its buffer

A message is written into the buffer it was made with: a new one of 2048 bytes, or, for a relayed
request, the one it was received in. The size of a message is a sum over its strings and lists,
which the write operators never compare with the size of the buffer.

## Main definitions

- `OutMsg` — the messages of all classes, with what each writes
- `OutMsg.send` — writing a message from the start of its buffer
- `OutMsg.wireSize` — the bytes the message takes
- `send_iff_fits` — the writes stay inside the buffer exactly if these bytes fit
-/

namespace OnlDaemons.Dispatcher

open OnlDaemons.Lib OnlDaemons.Shared OnlDaemons.Crd

/-- A message of any class. The classes that add no fields to what they write are not listed:
`request` stands for all requests that write their header only, `crd_request` for
`end_experiment` and `end_configure_node`, `switch_request` for `start_session`, `end_session`
and `add_vlan`, `port_request` for `add_to_vlan` and `delete_from_vlan`. -/
inductive OutMsg where
  | request (r : Request)
  | i_am_up (r : IAmUp)
  | crd_request (r : CrdRequest)
  | start_experiment (r : StartExperiment)
  | refresh (r : Refresh)
  | configure_node (r : ConfigureNode)
  | switch_request (r : SwitchRequest)
  | delete_vlan (r : DeleteVlan)
  | port_request (r : PortRequest)
  | initialize_req (r : Initialize)
  | relay_req (r : RelayRequest)
  | crd_response (r : CrdResponse)
  | crd_hwresponse (r : CrdHwresponse)
  | crd_endconfig_response (r : CrdEndconfigResponse)
  | rli_response (r : RliResponse)
  | switch_response (r : SwitchResponse)
  | add_vlan_response (r : AddVlanResponse)
  | rli_relay_resp (r : RelayResponse RliResponse)
  | crd_relay_resp (r : RelayResponse CrdResponse)
  | session_response (r : SessionResponse)
  | reservation_response (r : ReservationResponse)
  | rlicrd_response (r : RlicrdResponse)
  | component_response (r : ComponentResponse)
  | cluster_response (r : ClusterResponse)
  | observable_response (r : ObservableResponse)
  | observe_response (r : ObserveResponse)
  | get_plugins_resp (r : GetPluginsResp)
  | periodic (p : Periodic)
deriving DecidableEq, Repr

namespace OutMsg

/-- The write function of the class. -/
def write : OutMsg → Encoder
  | request r => r.write
  | i_am_up r => r.write
  | crd_request r => r.write
  | start_experiment r => r.write
  | refresh r => r.write
  | configure_node r => r.write
  | switch_request r => r.write
  | delete_vlan r => r.write
  | port_request r => r.write
  | initialize_req r => r.write
  | relay_req r => r.write
  | crd_response r => r.write
  | crd_hwresponse r => r.write
  | crd_endconfig_response r => r.write
  | rli_response r => r.write
  | switch_response r => r.write
  | add_vlan_response r => r.write
  | rli_relay_resp r => r.write RliResponse.write
  | crd_relay_resp r => r.write CrdResponse.write
  | session_response r => r.write
  | reservation_response r => r.write
  | rlicrd_response r => r.write
  | component_response r => r.write
  | cluster_response r => r.write
  | observable_response r => r.write
  | observe_response r => r.write
  | get_plugins_resp r => r.write
  | periodic p => p.write

/-- `message::send` resets the buffer, and the connection has the message write itself. There is
no outcome if a write goes past the allocated bytes. -/
def send (m : OutMsg) (buf : ByteBuffer) : Option ByteBuffer :=
  (m.write buf.reset).map (fun r => r.2)

def encode : OutMsg → List UInt8
  | request r => r.encode
  | i_am_up r => r.encode
  | crd_request r => r.encode
  | start_experiment r => r.encode
  | refresh r => r.encode
  | configure_node r => r.encode
  | switch_request r => r.encode
  | delete_vlan r => r.encode
  | port_request r => r.encode
  | initialize_req r => r.encode
  | relay_req r => r.encode
  | crd_response r => r.encode
  | crd_hwresponse r => r.encode
  | crd_endconfig_response r => r.encode
  | rli_response r => r.encode
  | switch_response r => r.encode
  | add_vlan_response r => r.encode
  | rli_relay_resp r => r.resp.encode ++ r.rest
  | crd_relay_resp r => r.resp.encode ++ r.rest
  | session_response r => r.encode
  | reservation_response r => r.encode
  | rlicrd_response r => r.encode
  | component_response r => r.encode
  | cluster_response r => r.encode
  | observable_response r => r.encode
  | observe_response r => r.encode
  | get_plugins_resp r => r.encode
  | periodic p => p.encode

/-- The bytes the message takes: its header, and each field's. -/
def wireSize : OutMsg → ℕ
  | request r => r.wireSize
  | i_am_up r => r.toRequest.wireSize + r.cp.wireSize
  | crd_request r => r.wireSize
  | start_experiment r =>
    r.toCrdRequest.wireSize + r.ipaddr.wireSize + paramsSize r.init_params + 8
  | refresh r => r.toCrdRequest.wireSize + paramsSize r.reboot_params
  | configure_node r => r.toCrdRequest.wireSize + r.node_conf.wireSize
  | switch_request r => r.wireSize
  | delete_vlan r => r.toSwitchRequest.wireSize + 4
  | port_request r => r.toSwitchRequest.wireSize + 4 + r.port.wireSize
  | initialize_req r =>
    r.toRequest.wireSize + 4 + (r.switches.map SwitchInfo.wireSize).sum
  | relay_req r => r.toRequest.wireSize + r.data.length
  | crd_response r => r.wireSize
  | crd_hwresponse r => r.toCrdResponse.wireSize + 4
  | crd_endconfig_response r => r.toCrdResponse.wireSize + r.vmname.wireSize
  | rli_response r => r.wireSize
  | switch_response r => r.toResponse.wireSize + 4
  | add_vlan_response r => r.toResponse.wireSize + 8
  | rli_relay_resp r => r.resp.wireSize + r.rest.length
  | crd_relay_resp r => r.resp.wireSize + r.rest.length
  | session_response r => r.toResponse.wireSize + 8 + r.id.wireSize + r.status_msg.wireSize
  | reservation_response r =>
    r.toResponse.wireSize + 8 + r.status_msg.wireSize + r.start_time.wireSize
  | rlicrd_response r => r.wireSize
  | component_response r => r.toRlicrdResponse.wireSize + r.cp.wireSize + 4 +
      if 0x80 < r.request_version.toNat then r.vmname.wireSize else 0
  | cluster_response r => r.toRlicrdResponse.wireSize + 4
  | observable_response r => r.toResponse.wireSize + 12 + r.status_msg.wireSize +
      (r.sess_list.map fun sess => sess.1.wireSize + sess.2.wireSize).sum
  | observe_response r => r.toResponse.wireSize + 8 + r.status_msg.wireSize + r.data.wireSize
  | get_plugins_resp r => r.toResponse.wireSize + 8 +
      (r.plugins.map fun plugin => plugin.1.wireSize + 4 + plugin.2.wireSize).sum
  | periodic _ => 60

theorem length_encode (m : OutMsg) : m.encode.length = m.wireSize := by
  cases m with
  | request r => exact r.length_encode
  | i_am_up r => simp +arith [encode, wireSize, IAmUp.encode]
  | crd_request r => exact r.length_encode
  | start_experiment r =>
    simp +arith [encode, wireSize, StartExperiment.encode, length_encodeParams]
  | refresh r => simp +arith [encode, wireSize, Refresh.encode, length_encodeParams]
  | configure_node r => simp +arith [encode, wireSize, ConfigureNode.encode]
  | switch_request r => exact r.length_encode
  | delete_vlan r => simp +arith [encode, wireSize, DeleteVlan.encode]
  | port_request r => simp +arith [encode, wireSize, PortRequest.encode]
  | initialize_req r => simp +arith [encode, wireSize, Initialize.encode, List.length_flatMap]
  | relay_req r => simp +arith [encode, wireSize, RelayRequest.encode]
  | crd_response r => exact r.length_encode
  | crd_hwresponse r => simp +arith [encode, wireSize, CrdHwresponse.encode]
  | crd_endconfig_response r => simp +arith [encode, wireSize, CrdEndconfigResponse.encode]
  | rli_response r => exact r.length_encode
  | switch_response r => simp +arith [encode, wireSize, SwitchResponse.encode]
  | add_vlan_response r =>
    simp +arith [encode, wireSize, AddVlanResponse.encode, SwitchResponse.encode]
  | rli_relay_resp r => simp [encode, wireSize]
  | crd_relay_resp r => simp [encode, wireSize]
  | session_response r => simp +arith [encode, wireSize, SessionResponse.encode]
  | reservation_response r => simp +arith [encode, wireSize, ReservationResponse.encode]
  | rlicrd_response r => exact r.length_encode
  | component_response r =>
    simp +arith only [encode, wireSize, ComponentResponse.encode, List.flatten_cons,
      List.flatten_nil, List.append_nil, List.length_append, RlicrdResponse.length_encode,
      NccpString.length_encode, length_bytesOf]
    split
    · simp +arith
    · simp +arith
  | cluster_response r => simp +arith [encode, wireSize, ClusterResponse.encode]
  | observable_response r =>
    simp +arith [encode, wireSize, ObservableResponse.encode, ObservableResponse.encodeSession,
      List.length_flatMap]
  | observe_response r => simp +arith [encode, wireSize, ObserveResponse.encode]
  | get_plugins_resp r =>
    simp +arith [encode, wireSize, GetPluginsResp.encode, GetPluginsResp.encodePlugin,
      List.length_flatMap]
  | periodic p => exact p.length_encode

/-- Every class writes its encoding. A relayed request resets the buffer once more. -/
theorem write_apply (m : OutMsg) (buf : ByteBuffer) (h : buf.reset = buf) :
    m.write buf = put m.encode buf := by
  cases m with
  | request r => exact congrFun r.write_eq buf
  | i_am_up r => exact congrFun r.write_eq buf
  | crd_request r => exact congrFun r.write_eq buf
  | start_experiment r => exact congrFun r.write_eq buf
  | refresh r => exact congrFun r.write_eq buf
  | configure_node r => exact congrFun r.write_eq buf
  | switch_request r => exact congrFun r.write_eq buf
  | delete_vlan r => exact congrFun r.write_eq buf
  | port_request r => exact congrFun r.write_eq buf
  | initialize_req r => exact congrFun r.write_eq buf
  | relay_req r => exact r.write_apply.trans (by rw [h]; rfl)
  | crd_response r => exact congrFun r.write_eq buf
  | crd_hwresponse r => exact congrFun r.write_eq buf
  | crd_endconfig_response r => exact congrFun r.write_eq buf
  | rli_response r => exact congrFun r.write_eq buf
  | switch_response r => exact congrFun r.write_eq buf
  | add_vlan_response r => exact congrFun r.write_eq buf
  | rli_relay_resp r => exact congrFun (r.write_eq RliResponse.write_eq) buf
  | crd_relay_resp r => exact congrFun (r.write_eq CrdResponse.write_eq) buf
  | session_response r => exact congrFun r.write_eq buf
  | reservation_response r => exact congrFun r.write_eq buf
  | rlicrd_response r => exact congrFun r.write_eq buf
  | component_response r => exact congrFun r.write_eq buf
  | cluster_response r => exact congrFun r.write_eq buf
  | observable_response r => exact congrFun r.write_eq buf
  | observe_response r => exact congrFun r.write_eq buf
  | get_plugins_resp r => exact congrFun r.write_eq buf
  | periodic p => exact congrFun p.write_eq buf

theorem send_isSome (m : OutMsg) (buf : ByteBuffer) :
    (m.send buf).isSome ↔ m.encode.length ≤ buf.num_bytes_allocated := by
  rw [send, Option.isSome_map, m.write_apply buf.reset rfl,
    put_apply m.encode buf.reset (Nat.zero_le _)]
  show 0 + _ ≤ _ ↔ _
  rw [Nat.zero_add]
  rfl

end OutMsg

/-- A message stays inside its buffer exactly if the bytes it takes are no more than the bytes
allocated. -/
theorem send_iff_fits (m : OutMsg) (buf : ByteBuffer) :
    (m.send buf).isSome ↔ m.wireSize ≤ buf.num_bytes_allocated := by
  rw [m.send_isSome, m.length_encode]

/-! ### Which messages fit a new buffer -/

theorem string_le (s : NccpString) : s.wireSize ≤ 259 := Nat.add_le_add_left s.length_le 4

theorem request_le (r : Request) : r.wireSize ≤ 42 := by
  rw [Request.wireSize]
  split <;> omega

theorem response_le (r : Response) : r.wireSize ≤ 64 := by
  rw [Response.wireSize]
  split <;> omega

theorem experiment_le (e : Experiment) : e.wireSize ≤ 1040 := by
  have h₁ := string_le e.addr
  have h₂ := string_le e.info.ID
  have h₃ := string_le e.info.expName
  have h₄ := string_le e.info.userName
  rw [Experiment.wireSize, ExperimentInfo.wireSize]
  omega

theorem component_le (c : Component) : c.wireSize ≤ 786 := by
  have h₁ := string_le c.type
  have h₂ := string_le c.label
  have h₃ := string_le c.cp
  rw [Component.wireSize]
  omega

/-- The classes without a list, without relayed bytes and with at most seven long strings. -/
def OutMsg.Short : OutMsg → Prop
  | start_experiment _ | refresh _ | configure_node _ | initialize_req _ | relay_req _
  | crd_endconfig_response _ | rli_relay_resp _ | crd_relay_resp _ | component_response _
  | observable_response _ | get_plugins_resp _ => False
  | _ => True

/-- Their messages all fit a new buffer, the largest with 1898 of its 2048 bytes. -/
theorem OutMsg.Short.le {m : OutMsg} (h : m.Short) : m.wireSize ≤ 1898 := by
  cases m with
  | request r =>
    have hr := request_le r
    simp only [wireSize]
    omega
  | i_am_up r =>
    have hr := request_le r.toRequest
    have hcp := string_le r.cp
    simp only [wireSize]
    omega
  | crd_request r =>
    have hr := request_le r.toRequest
    have he := experiment_le r.exp
    have hc := component_le r.comp
    simp only [wireSize, CrdRequest.wireSize]
    omega
  | switch_request r =>
    have hr := request_le r.toRequest
    have hs := string_le r.sessionID
    simp only [wireSize, SwitchRequest.wireSize]
    omega
  | delete_vlan r =>
    have hr := request_le r.toRequest
    have hs := string_le r.sessionID
    simp only [wireSize, SwitchRequest.wireSize]
    omega
  | port_request r =>
    have hr := request_le r.toRequest
    have hs := string_le r.sessionID
    have hp := string_le r.port.switchid
    simp only [wireSize, SwitchRequest.wireSize, SwitchPort.wireSize]
    omega
  | crd_response r =>
    have hr := response_le r.toResponse
    have he := experiment_le r.exp
    have hc := component_le r.comp
    simp only [wireSize, CrdResponse.wireSize]
    omega
  | crd_hwresponse r =>
    have hr := response_le r.toResponse
    have he := experiment_le r.exp
    have hc := component_le r.comp
    simp only [wireSize, CrdResponse.wireSize]
    omega
  | rli_response r =>
    have hr := response_le r.toResponse
    have hs := string_le r.status_msg
    simp only [wireSize, RliResponse.wireSize]
    omega
  | switch_response r =>
    have hr := response_le r.toResponse
    simp only [wireSize]
    omega
  | add_vlan_response r =>
    have hr := response_le r.toResponse
    simp only [wireSize]
    omega
  | session_response r =>
    have hr := response_le r.toResponse
    have hi := string_le r.id
    have hs := string_le r.status_msg
    simp only [wireSize]
    omega
  | reservation_response r =>
    have hr := response_le r.toResponse
    have hs := string_le r.status_msg
    have ht := string_le r.start_time
    simp only [wireSize]
    omega
  | rlicrd_response r =>
    have hr := response_le r.toResponse
    have he := experiment_le r.exp
    have hc := component_le r.comp
    simp only [wireSize, RlicrdResponse.wireSize]
    omega
  | cluster_response r =>
    have hr := response_le r.toResponse
    have he := experiment_le r.exp
    have hc := component_le r.comp
    simp only [wireSize, RlicrdResponse.wireSize]
    omega
  | observe_response r =>
    have hr := response_le r.toResponse
    have hs := string_le r.status_msg
    have h₁ := string_le r.data.sid
    have h₂ := string_le r.data.observer
    have h₃ := string_le r.data.observee
    simp only [wireSize, ObserveData.wireSize]
    omega
  | periodic p => simp only [wireSize, Nat.reduceLeDiff]
  | _ => exact h.elim

theorem OutMsg.Short.send {m : OutMsg} (h : m.Short) (garbage : ℕ → UInt8) :
    (m.send (ByteBuffer.new garbage)).isSome := by
  rw [m.send_isSome, m.length_encode]
  exact h.le.trans (by decide : 1898 ≤ 2048)

/-- A request to refresh a component, with the given parameters. -/
def refreshWith (reboot_params : List Param) : Refresh where
  type := NCCP_MessageRequest
  version := 0
  op := 35
  rend := Rendezvous.new 35 1
  periodic_message := false
  period := ⟨0, 0⟩
  exp := ⟨NccpString.empty, 0, NccpString.empty, NccpString.empty, NccpString.empty⟩
  comp := ⟨NccpString.empty, 1, 0, NccpString.empty, NccpString.empty, false⟩
  reboot_params := reboot_params

/-- Eight long parameters do not fit a new buffer. -/
theorem refresh_not_inside :
    ¬ ∀ (m : OutMsg) (garbage : ℕ → UInt8), (m.send (ByteBuffer.new garbage)).isSome := by
  intro h
  have hsend := h (.refresh (refreshWith (List.replicate 8 longParam))) (fun _ => 0)
  rw [OutMsg.send_isSome, OutMsg.length_encode] at hsend
  have hparams : paramsSize (List.replicate 8 longParam) = 4 + 8 * 261 := longParams_size 8
  simp only [OutMsg.wireSize, refreshWith, hparams] at hsend
  exact absurd hsend (by decide)

end OnlDaemons.Dispatcher
