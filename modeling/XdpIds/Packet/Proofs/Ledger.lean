/-
The flow table keeps the ledger of every flow.

One flow first. `flowRun_totals` is the induction over its packets: the
last timestamp, the count modulo `2 ^ 32` and the bytes modulo `2 ^ 64`,
whatever the timestamps; `flowRun_iat` adds the gaps, which need
timestamps in order. Within range the moduli go (`flowRun_accounts`),
and the values written at a packet are the features of the history that
ends with it (`flowPacket_writes`).

Then all flows. A run of frames is a keyed store's run of events
(`receiveAll_eq`), so each key's entry is `flowRun` of the packets with
that key alone, and `ledger_exact` reads the single-flow facts off it.
-/
import XdpIds.Lib.Keyed
import XdpIds.Packet.Ledger
import XdpIds.Packet.Proofs.Parse

namespace XdpIds

variable {h : List Sighting} {p q : Sighting}

-- ================================================================= one flow

theorem flowRun_concat (h : List Sighting) (p : Sighting) :
    flowRun (h ++ [p])
      = some (flowPacket (flowRun h) p.time p.len).1 := by
  rw [flowRun, List.foldl_append]
  rfl

theorem gapsMs_concat (h : List Sighting) (p q : Sighting) :
    gapsMs (h ++ [p, q]) = gapsMs (h ++ [p]) ++ [p.gapMs q] := by
  induction h with
  | nil => rfl
  | cons a h ih =>
      cases h with
      | nil => rfl
      | cons b h => exact congrArg (a.gapMs b :: ·) ih

theorem bytes_concat (h : List Sighting) (p : Sighting) :
    bytes (h ++ [p]) = bytes h + p.len := by
  simp [bytes]

/-- What an entry holds of a history whatever the timestamps, up to the
widths of its fields. -/
def Totals : Option FlowInfo → List Sighting → Prop
  | none, h => h = []
  | some fi, h =>
      h.getLast?.map (·.time) = some fi.lastSeen
        ∧ fi.totBytes.toNat = bytes h % 2 ^ 64
        ∧ fi.count.toNat = h.length % 2 ^ 32

/-- One packet more. -/
theorem flowPacket_totals {found : Option FlowInfo} (hfound : Totals found h)
    (p : Sighting) :
    Totals (some (flowPacket found p.time p.len).1) (h ++ [p]) := by
  refine ⟨by rw [List.getLast?_concat]; cases found <;> rfl, ?_, ?_⟩
  · rw [bytes_concat]
    cases found with
    | none =>
        obtain rfl := hfound
        show (UInt64.ofNat p.len).toNat = (0 + p.len) % 2 ^ 64
        rw [UInt64.toNat_ofNat', Nat.zero_add]
    | some fi =>
        show (fi.totBytes + UInt64.ofNat p.len).toNat = _
        rw [UInt64.toNat_add, UInt64.toNat_ofNat', hfound.2.1]
        omega
  · rw [List.length_append]
    cases found with
    | none =>
        obtain rfl := hfound
        rfl
    | some fi =>
        show (fi.count + 1).toNat = (h.length + 1) % 2 ^ 32
        rw [UInt32.toNat_add, hfound.2.2]
        show (h.length % 2 ^ 32 + 1) % 2 ^ 32 = _
        omega

/-- The entry a history leaves. -/
theorem flowRun_totals (h : List Sighting) : Totals (flowRun h) h := by
  induction h using List.reverseRecOn with
  | nil => rfl
  | append_singleton h p ih =>
      rw [flowRun_concat]
      exact flowPacket_totals ih p

/-- A flow with a packet has an entry. -/
theorem flowRun_some (hne : h ≠ []) : ∃ fi, flowRun h = some fi := by
  have ht := flowRun_totals h
  cases hrun : flowRun h with
  | none =>
      rw [hrun] at ht
      exact absurd ht hne
  | some fi => exact ⟨fi, rfl⟩

/-- An entry that was there was left by a last packet. -/
theorem Totals.last {fi : FlowInfo} (ht : Totals (some fi) h) :
    ∃ earlier p, h = earlier ++ [p] ∧ fi.lastSeen = p.time := by
  obtain ⟨p, hp, htime⟩ := Option.map_eq_some_iff.mp ht.1
  obtain ⟨earlier, rfl⟩ := List.getLast?_eq_some_iff.mp hp
  exact ⟨earlier, p, rfl, htime.symm⟩

/-- In order, the kernel's subtraction is the gap. -/
theorem iatMs_toNat {fi : FlowInfo} (hlast : fi.lastSeen = p.time)
    (hle : p.time ≤ q.time) : (fi.iatMs q.time).toNat = p.gapMs q := by
  rw [FlowInfo.iatMs, hlast, UInt64.toNat_div, UInt64.toNat_sub_of_le _ _ hle]
  rfl

/-- With timestamps in order the entry also holds the gaps. -/
theorem flowRun_iat (hord : InOrder h) {fi : FlowInfo}
    (hfi : flowRun h = some fi) :
    fi.totIat.toNat = (gapsMs h).sum % 2 ^ 64 := by
  induction h using List.reverseRecOn generalizing fi with
  | nil => cases hfi
  | append_singleton h q ih =>
      rw [flowRun_concat] at hfi
      obtain rfl := Option.some.inj hfi
      have hprev := flowRun_totals h
      obtain ⟨hord', -, hq⟩ := List.pairwise_append.mp hord
      cases hrun : flowRun h with
      | none =>
          rw [hrun] at hprev
          obtain rfl := hprev
          rfl
      | some fi =>
          rw [hrun] at hprev
          obtain ⟨earlier, p, rfl, hlast⟩ := hprev.last
          have hle : p.time ≤ q.time :=
            hq p (List.mem_append_right _ (List.mem_singleton_self p)) q
              (List.mem_singleton_self q)
          show (fi.totIat + fi.iatMs q.time).toNat = _
          rw [UInt64.toNat_add, ih hord' hrun, iatMs_toNat hlast hle,
            List.append_assoc, List.singleton_append, gapsMs_concat,
            List.sum_append, List.sum_singleton]
          omega

/-- Within range the entry is the ledger. -/
theorem flowRun_accounts (hord : InOrder h) (hrange : InRange h) :
    Accounts (flowRun h) h := by
  have ht := flowRun_totals h
  cases hrun : flowRun h with
  | none =>
      rw [hrun] at ht
      exact ht
  | some fi =>
      rw [hrun] at ht
      obtain ⟨hlast, hbytes, hcount⟩ := ht
      have hiat := flowRun_iat hord hrun
      have hc := hrange.count
      have hb := hrange.bytes
      have hi := hrange.iat
      exact ⟨hlast, by omega, by omega, by omega⟩

-- ======================================================== the values written

/-- A 64-bit total divided by the 32-bit count, as it is written. -/
theorem mean_toNat {x : UInt64} {c : UInt32}
    (hsmall : x.toNat / c.toNat < 2 ^ 32) :
    (x / c.toUInt64).toUInt32.toNat = x.toNat / c.toNat := by
  rw [UInt64.toNat_toUInt32, UInt64.toNat_div, UInt32.toNat_toUInt64]
  exact Nat.mod_eq_of_lt hsmall

theorem narrow_toNat {x : UInt64} (hx : x.toNat < 2 ^ 32) :
    x.toUInt32.toNat = x.toNat := by
  rw [UInt64.toNat_toUInt32]
  exact Nat.mod_eq_of_lt hx

/-- The writes at a flow's first packet. -/
theorem createWrites_value (q : Sighting) {f : Feature}
    (hf : f ∈ Feature.implementedFlow) (old : Option UInt32) :
    (lastWrite f old (FlowInfo.createWrites q.len)).map (·.toNat)
      = flowValue [q] f := by
  have hlen : (UInt32.ofNat q.len).toNat = q.len := by
    rw [UInt32.toNat_ofNat', Nat.mod_eq_of_lt q.len_lt]
  have hbytes : bytes [q] = q.len := by simp [bytes]
  simp only [Feature.implementedFlow, List.mem_cons, List.not_mem_nil,
    or_false] at hf
  rcases hf with rfl | rfl | rfl | rfl | rfl | rfl
  · show some (UInt32.ofNat q.len).toNat = some (bytes [q] / 1)
    rw [hlen, hbytes, Nat.div_one]
  · show some (UInt32.ofNat q.len).toNat = some (bytes [q])
    rw [hlen, hbytes]
  · rfl
  · rfl
  · rfl
  · show some 0 = some (0 / 1)
    rw [Nat.zero_div]

/-- The writes at a later packet, from the entry it leaves. -/
theorem updateWrites_value {fi : FlowInfo} (hacc : Accounts (some fi) h)
    (hrange : InRange h) {iat : UInt64}
    (hiat : iat.toNat = (gapsMs h).getLast?.getD 0)
    (hsmall : iat.toNat < 2 ^ 32) {f : Feature}
    (hf : f ∈ Feature.implementedFlow) (old : Option UInt32) :
    (lastWrite f old (fi.updateWrites iat)).map (·.toNat)
      = flowValue h f := by
  obtain ⟨-, hbytes, htot, hcount⟩ := hacc
  have hb : fi.totBytes.toNat < 2 ^ 32 := hbytes ▸ hrange.bytes
  have hi : fi.totIat.toNat < 2 ^ 32 := htot ▸ hrange.iat
  simp only [Feature.implementedFlow, List.mem_cons, List.not_mem_nil,
    or_false] at hf
  rcases hf with rfl | rfl | rfl | rfl | rfl | rfl
  · show some (fi.totBytes / fi.count.toUInt64).toUInt32.toNat
      = some (bytes h / h.length)
    rw [mean_toNat (lt_of_le_of_lt (Nat.div_le_self _ _) hb), hbytes, hcount]
  · show some fi.totBytes.toUInt32.toNat = some (bytes h)
    rw [narrow_toNat hb, hbytes]
  · show some fi.count.toNat = some h.length
    rw [hcount]
  · have hclamp : ¬ iat > 0xFFFFFFFF := by
      rw [gt_iff_lt, UInt64.lt_iff_toNat_lt]
      show ¬ 0xFFFFFFFF < iat.toNat
      omega
    show some (if iat > 0xFFFFFFFF then 0xFFFFFFFF else iat.toUInt32).toNat
      = some ((gapsMs h).getLast?.getD 0)
    rw [if_neg hclamp, narrow_toNat hsmall, hiat]
  · show some fi.totIat.toUInt32.toNat = some (gapsMs h).sum
    rw [narrow_toNat hi, htot]
  · show some (fi.totIat / fi.count.toUInt64).toUInt32.toNat
      = some ((gapsMs h).sum / h.length)
    rw [mean_toNat (lt_of_le_of_lt (Nat.div_le_self _ _) hi), htot, hcount]

/-- The values written at a packet are the features of the history it
ends. -/
theorem flowPacket_writes (hord : InOrder (h ++ [q]))
    (hrange : InRange (h ++ [q])) {f : Feature}
    (hf : f ∈ Feature.implementedFlow) (old : Option UInt32) :
    (lastWrite f old (flowPacket (flowRun h) q.time q.len).2).map (·.toNat)
      = flowValue (h ++ [q]) f := by
  have hacc := flowRun_accounts hord hrange
  rw [flowRun_concat] at hacc
  have hprev := flowRun_totals h
  cases hrun : flowRun h with
  | none =>
      rw [hrun] at hprev
      obtain rfl := hprev
      exact createWrites_value q hf old
  | some fi =>
      rw [hrun] at hprev hacc
      obtain ⟨earlier, p, rfl, hlast⟩ := hprev.last
      obtain ⟨-, -, hq⟩ := List.pairwise_append.mp hord
      have hle : p.time ≤ q.time :=
        hq p (List.mem_append_right _ (List.mem_singleton_self p)) q
          (List.mem_singleton_self q)
      have hgaps : gapsMs (earlier ++ [p] ++ [q])
          = gapsMs (earlier ++ [p]) ++ [p.gapMs q] := by
        rw [List.append_assoc]
        exact gapsMs_concat earlier p q
      have hiat := iatMs_toNat hlast hle
      refine updateWrites_value hacc hrange ?_ ?_ hf old
      · rw [hiat, hgaps, List.getLast?_concat]
        rfl
      · have hsum := hrange.iat
        rw [hgaps, List.sum_append, List.sum_singleton] at hsum
        omega

-- ================================================================ all flows

variable {b : Build} {mask : BitVec 64}

/-- The flow a frame belongs to: the addresses and the ports its
transport header yields. -/
def Arrival.key (b : Build) (a : Arrival) : Option (BitVec 128) :=
  if a.frame.IsIp then
    match b.ports a.frame with
    | .ok ports => some (flowKey a.frame.saddr ports.1 a.frame.daddr ports.2)
    | .error _ => none
  else none

/-- The history of a key in a run: its packets, in their order. -/
def history (b : Build) (key : BitVec 128) (l : List Arrival) :
    List Sighting :=
  (Keyed.eventsOf (Arrival.key b) key l).map Arrival.sighting

/-- The flow map is a keyed store of entries. -/
def account (b : Build) : FlowMap → Arrival → FlowMap :=
  Keyed.absorb (Arrival.key b) fun found a =>
    (flowPacket found a.time a.frame.len).1

/-- A frame with a key is accepted, and its packet goes to that key. -/
theorem receive_some (hb : b.Declares mask) (hflow : FlowSelected mask)
    {a : Arrival} {key : BitVec 128} (hkey : a.key b = some key)
    (flows : FlowMap) :
    ∃ sport dport s, receive b flows a = .ok (0, s)
      ∧ s.flows = account b flows a
      ∧ s.fv = putSlots mask (.replicate b.featureNb 0)
          (ipWrites a.frame ++ portWrites sport dport
            ++ (flowPacket (flows key) a.time a.frame.len).2) := by
  have haccount : account b flows a = Function.update flows key
      (some (flowPacket (flows key) a.time a.frame.len).1) := by
    rw [account, Keyed.absorb, hkey]
  unfold Arrival.key at hkey
  split_ifs at hkey with hip
  cases hports : b.ports a.frame with
  | error code => rw [hports] at hkey; cases hkey
  | ok ports =>
      rw [hports] at hkey
      obtain rfl := Option.some.inj hkey
      refine ⟨ports.1, ports.2, accepted mask a.frame a.time ports.1 ports.2
        ⟨.replicate b.featureNb 0, flows, a.event⟩, ?_, ?_, ?_⟩
      · rw [receive, parseUpdate_ip hb hip,
          portsSeen_needed hb (.inr hflow), hports]
      · rw [haccount]
        simp only [accepted, if_pos hflow]
        rfl
      · simp only [accepted, if_pos hflow]
        rfl

/-- A frame without one is refused, and changes no entry. -/
theorem receive_none (hb : b.Declares mask) (hflow : FlowSelected mask)
    {a : Arrival} (hkey : a.key b = none) (flows : FlowMap) :
    ∃ code s, receive b flows a = .ok (code, s) ∧ code ≠ 0
      ∧ s.flows = flows ∧ s.flows = account b flows a := by
  rcases parseUpdate_cases hb a.frame a.time
      ⟨.replicate b.featureNb 0, flows, a.event⟩ with
    ⟨code, s, hrun, hcode, hflows⟩ | ⟨hip, ports, hseen, -⟩
  · refine ⟨code, s, hrun, hcode, hflows, ?_⟩
    rw [hflows, account, Keyed.absorb, hkey]
  · rw [portsSeen_needed hb (.inr hflow)] at hseen
    rw [Arrival.key, if_pos hip, hseen] at hkey
    cases hkey

/-- Refused or not, a frame is an event of the keyed store. -/
theorem receive_account (hb : b.Declares mask) (hflow : FlowSelected mask)
    (flows : FlowMap) (a : Arrival) :
    ∃ code s, receive b flows a = .ok (code, s)
      ∧ s.flows = account b flows a := by
  cases hkey : a.key b with
  | none =>
      obtain ⟨code, s, hrun, -, -, hs⟩ := receive_none hb hflow hkey flows
      exact ⟨code, s, hrun, hs⟩
  | some key =>
      obtain ⟨_, _, s, hrun, hs, -⟩ := receive_some hb hflow hkey flows
      exact ⟨0, s, hrun, hs⟩

/-- A run of frames is a run of the keyed store. -/
theorem receiveAll_eq (hb : b.Declares mask) (hflow : FlowSelected mask)
    (flows : FlowMap) (l : List Arrival) :
    receiveAll b flows l = .ok (l.foldl (account b) flows) := by
  induction l generalizing flows with
  | nil => rfl
  | cons a l ih =>
      obtain ⟨code, s, hrun, hs⟩ := receive_account hb hflow flows a
      rw [receiveAll, hrun, List.foldl_cons, ← hs]
      exact ih s.flows

/-- A key's entry after a run is what its own packets leave. -/
theorem account_history (b : Build) (key : BitVec 128) (l : List Arrival) :
    l.foldl (account b) (fun _ => none) key = flowRun (history b key l) := by
  rw [history, flowRun, List.foldl_map]
  exact Keyed.foldl_absorb _ l key

theorem history_concat (b : Build) (key : BitVec 128) (l : List Arrival)
    (a : Arrival) :
    history b key (l ++ [a]) = history b key l
      ++ if a.key b = some key then [a.sighting] else [] := by
  unfold history Keyed.eventsOf
  rw [List.filter_append, List.map_append]
  by_cases h : a.key b = some key
  · rw [if_pos h, List.filter_cons_of_pos (by simpa using h)]
    rfl
  · rw [if_neg h, List.filter_cons_of_neg (by simpa using h)]
    rfl

/-- A key's packets are in order when the run's are. -/
theorem history_inOrder {l : List Arrival}
    (hord : l.Pairwise fun a a' => a.time ≤ a'.time) (key : BitVec 128) :
    InOrder (history b key l) := by
  refine List.pairwise_map.mpr ?_
  exact hord.sublist List.filter_sublist

/-- After a run, a frame with a key is shown what the history of that key
makes of it. -/
theorem receive_shows (hb : b.Declares mask) (hflow : FlowSelected mask)
    {a : Arrival} {key : BitVec 128} (hkey : a.key b = some key)
    (earlier : List Arrival) :
    ∃ s, receive b (earlier.foldl (account b) fun _ => none) a = .ok (0, s)
      ∧ s.flows = account b (earlier.foldl (account b) fun _ => none) a
      ∧ ∀ f, Selected mask f → ∃ old,
          s.fv[rank mask f.bit]? = lastWrite f old
            (flowPacket (flowRun (history b key earlier)) a.time
              a.frame.len).2 := by
  obtain ⟨sport, dport, s, hcall, hs, hfv⟩ := receive_some hb hflow hkey
    (earlier.foldl (account b) fun _ => none)
  refine ⟨s, hcall, hs, fun f hf => ?_⟩
  rw [hfv, putSlots_slot hb.room hf, lastWrite_append, account_history]
  exact ⟨_, rfl⟩

/-- After every frame of a run, every flow's entry holds its ledger; a
refused frame changes no entry; an accepted one's vector shows the
features of its flow's history. -/
theorem ledger_exact {mask : BitVec 64}
    (hfeatures : ∀ f ∈ Feature.implementedFlow, Selected mask f)
    {earlier : List Arrival} {a : Arrival}
    (hord : (earlier ++ [a]).Pairwise fun a a' => a.time ≤ a'.time)
    (hrange : ∀ key, InRange (history (.ofMask mask) key (earlier ++ [a]))) :
    ∃ flows code s,
      receiveAll (.ofMask mask) (fun _ => none) earlier = .ok flows
      ∧ receive (.ofMask mask) flows a = .ok (code, s)
      ∧ (code = 0 ↔ (a.key (.ofMask mask)).isSome)
      ∧ (code ≠ 0 → s.flows = flows)
      ∧ (∀ key, Accounts (s.flows key)
          (history (.ofMask mask) key (earlier ++ [a])))
      ∧ ∀ key, a.key (.ofMask mask) = some key →
          ∀ f ∈ Feature.implementedFlow,
            s.fv[rank mask f.bit]?.map (·.toNat)
              = flowValue (history (.ofMask mask) key (earlier ++ [a])) f := by
  have hb := Build.ofMask_declares mask
  have hflow : FlowSelected mask := flowSelected_iff_bit.mpr
    ⟨Feature.pktNb.bit, by decide, hfeatures .pktNb (by decide)⟩
  have hentry : ∀ key, Accounts
      (account (.ofMask mask)
        (earlier.foldl (account (.ofMask mask)) fun _ => none) a key)
      (history (.ofMask mask) key (earlier ++ [a])) := by
    intro key
    have hacc := flowRun_accounts (history_inOrder hord key) (hrange key)
    rw [← account_history, List.foldl_append] at hacc
    exact hacc
  have hrun := receiveAll_eq hb hflow (fun _ => none) earlier
  cases hkey : a.key (.ofMask mask) with
  | none =>
      obtain ⟨code, s, hcall, hcode, hsame, hs⟩ := receive_none hb hflow hkey
        (earlier.foldl (account (.ofMask mask)) fun _ => none)
      refine ⟨_, code, s, hrun, hcall, ?_, fun _ => hsame, ?_, ?_⟩
      · exact iff_of_false hcode (by simp)
      · rw [hs]
        exact hentry
      · intro key h
        cases h
  | some key =>
      obtain ⟨s, hcall, hs, hslots⟩ := receive_shows hb hflow hkey earlier
      refine ⟨_, 0, s, hrun, hcall, ?_, fun h => absurd rfl h, ?_, ?_⟩
      · exact iff_of_true rfl rfl
      · rw [hs]
        exact hentry
      · intro key' h f hf
        obtain rfl := Option.some.inj h
        have hhist := history_concat (.ofMask mask) key earlier a
        rw [if_pos hkey] at hhist
        have hord' := history_inOrder (b := .ofMask mask) hord key
        have hrange' := hrange key
        rw [hhist] at hord' hrange'
        obtain ⟨old, hslot⟩ := hslots f (hfeatures f hf)
        rw [hslot, hhist]
        exact flowPacket_writes (q := a.sighting) hord' hrange' hf old

/-- The ports and every implemented flow feature. -/
def flowMask : BitVec 64 :=
  maskOf (.sPort :: .dPort :: Feature.implementedFlow)

/-- One UDP packet, at a given time. -/
def udpAt (time : UInt64) : Arrival := ⟨udpFrom 68, time, none⟩

/-- The flow these packets are of. -/
def udpKey : BitVec 128 := flowKey (udpFrom 68).saddr 68 (udpFrom 68).daddr 53

theorem udpAt_key (time : UInt64) :
    (udpAt time).key (.ofMask flowMask) = some udpKey := by
  have hsame : (udpAt time).key (.ofMask flowMask)
      = (udpAt 0).key (.ofMask flowMask) := rfl
  rw [hsame]
  decide

/-- A run of them is one flow's history, and no other flow has one. -/
theorem history_udpAt (key : BitVec 128) (times : List UInt64) :
    history (.ofMask flowMask) key (times.map udpAt)
      = if key = udpKey then times.map fun t => (udpAt t).sighting
        else [] := by
  unfold history Keyed.eventsOf
  have hkeys : ∀ a ∈ times.map udpAt,
      a.key (.ofMask flowMask) = some udpKey := by
    intro a ha
    obtain ⟨t, -, rfl⟩ := List.mem_map.mp ha
    exact udpAt_key t
  split_ifs with hkey
  · rw [List.filter_eq_self.mpr fun a ha =>
      decide_eq_true (hkey ▸ hkeys a ha), List.map_map]
    rfl
  · rw [List.filter_eq_nil_iff.mpr fun a ha => ?_]
    · rfl
    · rw [hkeys a ha, decide_eq_true_eq]
      exact fun h => hkey (Option.some.inj h).symm

theorem history_udpPair (time : UInt64) :
    history (.ofMask flowMask) udpKey [udpAt 0, udpAt time]
      = [(udpAt 0).sighting, (udpAt time).sighting] :=
  history_udpAt udpKey [0, time]

theorem udpPair_inOrder (time : UInt64) :
    InOrder (history (.ofMask flowMask) udpKey [udpAt 0, udpAt time]) := by
  rw [history_udpPair]
  exact List.pairwise_pair.mpr (UInt64.le_iff_toNat_le.mpr (Nat.zero_le _))

/-- The second packet, five milliseconds after the first. -/
theorem ledger_exact_udpAt :
    ∃ flows s,
      receiveAll (.ofMask flowMask) (fun _ => none) [udpAt 0] = .ok flows
      ∧ receive (.ofMask flowMask) flows (udpAt 5999999) = .ok (0, s)
      ∧ s.fv[rank flowMask (Feature.bit .sizeTot)]?.map (·.toNat) = some 84
      ∧ s.fv[rank flowMask (Feature.bit .iat)]?.map (·.toNat) = some 5 := by
  have hhist : ∀ key, history (.ofMask flowMask) key
      ([udpAt 0] ++ [udpAt 5999999])
        = if key = udpKey then
            [(udpAt 0).sighting, (udpAt 5999999).sighting] else [] :=
    fun key => history_udpAt key [0, 5999999]
  have hrange : ∀ key, InRange (history (.ofMask flowMask) key
      ([udpAt 0] ++ [udpAt 5999999])) := by
    intro key
    rw [hhist]
    split
    · exact ⟨by decide, by decide, by decide⟩
    · exact ⟨by decide, by decide, by decide⟩
  obtain ⟨flows, code, s, hrun, hcall, hcode, -, -, hslots⟩ :=
    ledger_exact (by decide) (by decide) hrange
  have hkey := udpAt_key 5999999
  obtain rfl := hcode.mpr (Option.isSome_of_eq_some hkey)
  have htot := hslots udpKey hkey .sizeTot (by decide)
  have hiat := hslots udpKey hkey .iat (by decide)
  rw [hhist, if_pos rfl] at htot hiat
  exact ⟨flows, s, hrun, hcall, htot, hiat⟩

end XdpIds
