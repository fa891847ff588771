/-
Columns and slots: the packet features as the exporter numbers them and
as `parse_update` fills them.

Three parties number the features. Python uses the position in
`FEATURE_NAMES`, the kernel loop the rank of the feature's bit, and the
tree whatever index the exporter wrote. For names in ascending bit order
the first two agree (`rank_names`), so slot `k` is the last value written
for `FEATURE_NAMES[k]`, or the initial 0.

What is written is another matter. No call writes the addresses, and the
ports are read at a fixed offset, so `columns_iff` has conditions: the
packet's addresses are 0 where they are selected, and its ports are
where a header without options would put them.
-/
import XdpIds.Lib.Rank
import XdpIds.Packet.Report
import XdpIds.Packet.Proofs.Parse

namespace XdpIds

variable {names : List Feature} {f : Frame}

-- ============================================================== the columns

/-- The names are in strictly ascending bit order. -/
def Ascending (names : List Feature) : Prop :=
  names.Pairwise (·.bit < ·.bit)

instance : Decidable (Ascending names) :=
  inferInstanceAs (Decidable (names.Pairwise _))

/-- The names' bits are the selected ones, in their order. -/
theorem bits_maskOf (h : Ascending names) :
    names.map Feature.bit
      = Rank.below (fun i => (maskOf names).getLsbD i = true) 64 := by
  refine Rank.eq_below (List.pairwise_map.mpr h) fun i => ?_
  rw [List.mem_map, getLsbD_maskOf]
  refine ⟨fun hi => ⟨?_, hi⟩, And.right⟩
  obtain ⟨f, -, rfl⟩ := hi
  exact f.bit_lt

/-- The column of a name is the rank of its bit. -/
theorem rank_names (h : Ascending names) {k : Nat} (hk : k < names.length) :
    rank (maskOf names) names[k].bit = k := by
  have hsel : (maskOf names).getLsbD names[k].bit = true :=
    (getLsbD_maskOf names _).mpr ⟨names[k], List.getElem_mem hk, rfl⟩
  have hrank : (names.map Feature.bit)[rank (maskOf names) names[k].bit]?
      = some names[k].bit := by
    rw [bits_maskOf h]
    exact Rank.getElem?_rank names[k].bit_lt hsel
  have hnodup : (names.map Feature.bit).Nodup :=
    List.pairwise_map.mpr (h.imp Nat.ne_of_lt)
  have hindex : (names.map Feature.bit)[k]? = some names[k].bit := by
    rw [List.getElem?_map, List.getElem?_eq_getElem hk]
    rfl
  have hlen : k < (names.map Feature.bit).length := by rwa [List.length_map]
  exact ((List.getElem?_inj hlen hnodup).mp
    (hindex.trans hrank.symm)).symm

theorem selected_getElem {k : Nat} (hk : k < names.length) :
    Selected (maskOf names) names[k] :=
  (getLsbD_maskOf names _).mpr ⟨names[k], List.getElem_mem hk, rfl⟩

-- ============================================================ packet features

/-- The 16-bit field at an offset, if the frame holds it. -/
def Frame.field16 (f : Frame) (i : Nat) : Option UInt32 :=
  if i + 2 ≤ f.len then some (f.net16 i).toUInt32 else none

/-- The port field at an offset; 0 where there are no ports. -/
def Frame.port (f : Frame) (i : Nat) : Option UInt32 :=
  if f.HasPorts then f.field16 i else some 0

/-- A packet's value of a feature: the ports at the end of its IP header,
the addresses as they are stored. Flow features are no values of one
packet. -/
def Frame.value (f : Frame) : Feature → Option UInt32
  | .sPort => f.port f.transport
  | .dPort => f.port (f.transport + 2)
  | .protocol => some f.protocol.toUInt32
  | .pktSize => some f.size
  | .sIp => some f.saddr
  | .dIp => some f.daddr
  | _ => none

/-- The port field at offset `i` exists, and is what stands at offset
`j`. -/
def PortAt (f : Frame) (i j : Nat) : Prop :=
  f.HasPorts → i + 2 ≤ f.len ∧ f.net16 i = f.net16 j

/-- What has to hold for a feature's slot to hold its value: an address
is 0, since nothing writes it, and a port is where `parse_update` looks
for it. -/
def Delivered (f : Frame) : Feature → Prop
  | .sPort => PortAt f f.transport transportOffset
  | .dPort => PortAt f (f.transport + 2) (transportOffset + 2)
  | .sIp => f.saddr = 0
  | .dIp => f.daddr = 0
  | _ => True

-- ================================================================= the slots

/-- The port field as `parse_update` reads it at the fixed offset. -/
def Frame.fixedPort (f : Frame) (j : Nat) : UInt16 :=
  if f.HasPorts then f.net16 j else 0

/-- The ports `parse_update` finds once a port feature is selected. -/
def fixedPorts (f : Frame) : UInt16 × UInt16 :=
  (f.fixedPort transportOffset, f.fixedPort (transportOffset + 2))

theorem Build.ports_ok {b : Build} (hport : b.portsSelected = true)
    {ports : UInt16 × UInt16} (h : b.ports f = .ok ports) :
    ports = fixedPorts f := by
  unfold Build.ports at h
  unfold fixedPorts Frame.fixedPort
  rw [hport] at h
  by_cases htcp : f.protocol = IPPROTO_TCP
  · have hp : f.HasPorts := .inl htcp
    rw [if_pos htcp] at h
    rw [if_pos hp, if_pos hp]
    split_ifs at h
    exact (Except.ok.inj h).symm
  · rw [if_neg htcp] at h
    by_cases hudp : f.protocol = IPPROTO_UDP
    · have hp : f.HasPorts := .inr hudp
      rw [if_pos (by simp [hudp])] at h
      rw [if_pos hp, if_pos hp]
      split_ifs at h
      exact (Except.ok.inj h).symm
    · have hp : ¬ f.HasPorts := not_or.mpr ⟨htcp, hudp⟩
      rw [if_neg (by simp [hudp])] at h
      rw [if_neg hp, if_neg hp]
      exact (Except.ok.inj h).symm

/-- A port read at the fixed offset `j` is the packet's, at offset `i`,
when the field is there and the same. -/
theorem fixedPort_iff (f : Frame) (i j : Nat) :
    some (f.fixedPort j).toUInt32 = f.port i ↔ PortAt f i j := by
  unfold Frame.fixedPort Frame.port PortAt
  by_cases hp : f.HasPorts
  · rw [if_pos hp, if_pos hp, Frame.field16, forall_prop_of_true hp]
    by_cases hlen : i + 2 ≤ f.len
    · rw [if_pos hlen, Option.some.injEq, UInt16.toUInt32_inj, eq_comm]
      exact (and_iff_right hlen).symm
    · rw [if_neg hlen]
      exact iff_of_false (by simp) fun h => hlen h.1
  · rw [if_neg hp, if_neg hp]
    exact iff_of_true rfl fun h => absurd h hp

/-- The last value written for a packet feature, by feature. -/
theorem lastWrite_value_iff {n : Feature} (hpacket : n.isFlow = false)
    {ports : UInt16 × UInt16}
    (hports : n = .sPort ∨ n = .dPort → ports = fixedPorts f) :
    lastWrite n (some 0) (ipWrites f ++ portWrites ports.1 ports.2)
        = f.value n
      ↔ Delivered f n := by
  cases n with
  | sPort =>
      obtain rfl := hports (.inl rfl)
      exact fixedPort_iff f f.transport transportOffset
  | dPort =>
      obtain rfl := hports (.inr rfl)
      exact fixedPort_iff f (f.transport + 2) (transportOffset + 2)
  | protocol => exact iff_of_true rfl trivial
  | pktSize => exact iff_of_true rfl trivial
  | dIp =>
      show some 0 = some f.daddr ↔ f.daddr = 0
      rw [Option.some.injEq, eq_comm]
  | sIp =>
      show some 0 = some f.saddr ↔ f.saddr = 0
      rw [Option.some.injEq, eq_comm]
  | _ => cases hpacket

/-- Packet features are in the low half of the mask. -/
theorem not_flowSelected (hpacket : ∀ n ∈ names, n.isFlow = false) :
    ¬ FlowSelected (maskOf names) := by
  intro h
  obtain ⟨i, hi, hbit⟩ := flowSelected_iff_bit.mp h
  obtain ⟨n, hn, rfl⟩ := (getLsbD_maskOf names i).mp hbit
  exact absurd hi (of_decide_eq_false (hpacket n hn))

/-- Every column holds its packet value exactly when every selected
feature is delivered. -/
theorem columns_iff (hasc : Ascending names)
    (hpacket : ∀ n ∈ names, n.isFlow = false) {timeNow : UInt64}
    {flows : FlowMap} {nete : Option NetEvent}
    {s' : ParseState (.ofNames names)}
    (hrun : parseUpdate (.ofNames names) f timeNow
      ⟨.replicate _ 0, flows, nete⟩ = .ok (0, s')) :
    (∀ k (hk : k < names.length), s'.fv[k]? = f.value names[k])
      ↔ ∀ n ∈ names, Delivered f n := by
  have hb := Build.ofNames_declares names
  obtain ⟨-, ports, hseen, rfl⟩ := parseUpdate_zero hb hrun
  have hfixed : ∀ n ∈ names, n = .sPort ∨ n = .dPort →
      ports = fixedPorts f := by
    intro n hn hport
    have hsel : PortsSelected (maskOf names) := by
      rcases hport with rfl | rfl
      · exact .inl ((getLsbD_maskOf names _).mpr ⟨_, hn, rfl⟩)
      · exact .inr ((getLsbD_maskOf names _).mpr ⟨_, hn, rfl⟩)
    rw [portsSeen_needed hb (.inl hsel)] at hseen
    exact Build.ports_ok (hb.portsSelected_iff.mpr hsel) hseen
  have hslot : ∀ k (hk : k < names.length),
      (accepted (maskOf names) f timeNow ports.1 ports.2
        (⟨.replicate _ 0, flows, nete⟩ : ParseState (.ofNames names))).fv[k]?
        = lastWrite names[k] (some 0)
          (ipWrites f ++ portWrites ports.1 ports.2) := by
    intro k hk
    have hslot := putSlots_slot hb.room (selected_getElem hk)
      (.replicate _ 0) (ipWrites f ++ portWrites ports.1 ports.2)
    rw [rank_names hasc hk, Vector.getElem?_replicate,
      if_pos (show k < (Build.ofNames names).featureNb from hk)] at hslot
    simp only [accepted, if_neg (not_flowSelected hpacket), List.append_nil]
    exact hslot
  constructor
  · intro h n hn
    obtain ⟨k, hk, rfl⟩ := List.mem_iff_getElem.mp hn
    refine (lastWrite_value_iff (hpacket _ hn) (hfixed _ hn)).mp ?_
    rw [← hslot k hk]
    exact h k hk
  · intro h k hk
    have hn := List.getElem_mem hk
    rw [hslot k hk]
    exact (lastWrite_value_iff (hpacket _ hn) (hfixed _ hn)).mpr (h _ hn)

/-- The shipped columns on a UDP packet. -/
theorem columns_udpFrom :
    ∃ s', parseUpdate (.ofNames [.sPort, .dPort, .protocol, .pktSize])
        (udpFrom 68) 0 ⟨.replicate _ 0, fun _ => none, none⟩ = .ok (0, s')
      ∧ ((∀ k (hk : k < 4), s'.fv[k]? = (udpFrom 68).value
            ([Feature.sPort, .dPort, .protocol, .pktSize][k]))
        ↔ ∀ n ∈ [Feature.sPort, .dPort, .protocol, .pktSize],
            Delivered (udpFrom 68) n) := by
  have hb := Build.ofNames_declares [.sPort, .dPort, .protocol, .pktSize]
  have hrun := @parseUpdate_ip _ _ _ 0
    ⟨.replicate _ 0, fun _ => none, none⟩ hb (udpFrom_isIp 68)
  exact ⟨_, hrun, columns_iff (by decide) (by decide) hrun⟩

/-- A selected source address stays 0. -/
theorem address_unwritten :
    ∃ s', parseUpdate (.ofNames [.sIp]) (udpFrom 68) 0
        ⟨.replicate _ 0, fun _ => none, none⟩ = .ok (0, s')
      ∧ s'.fv[0]? ≠ (udpFrom 68).value .sIp := by
  have hb := Build.ofNames_declares [.sIp]
  have hrun := @parseUpdate_ip _ _ _ 0
    ⟨.replicate _ 0, fun _ => none, none⟩ hb (udpFrom_isIp 68)
  exact ⟨_, hrun, by decide⟩

end XdpIds
