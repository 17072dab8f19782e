import Obelisk.Lib.Run
import Obelisk.Net.Bounds

/-!
# The connections and the whole of `net_rx_frame`

`netRxFrame` is what `net_rx_frame` does to the connections.
-/

namespace Obelisk

open KLib List Reads

variable {mem : ℕ → UInt8} {s : Core}

def memOf (f : List UInt8) : ℕ → UInt8 := fun i => f.getD i 0

lemma wordAt_memOf (f : List UInt8) (i : ℕ) : wordAt (memOf f) i = be16 f i := rfl

lemma bytes_memOf {f : List UInt8} {i n : ℕ} (h : i + n ≤ f.length) :
    ((List.range n).map fun k => memOf f (i + k)) = slice f i n := by
  refine ext_getElem (by simp [slice]; omega) fun k h1 h2 => ?_
  have hk : k < n := by simpa using h1
  simp only [getElem_map, getElem_range, memOf, slice, getElem_take, getElem_drop]
  rw [getD_eq_getElem _ _ (by omega)]

/-! ## The branches other than TCP -/

@[simp] lemma netTxRaw_net (frame : List UInt8) (s : Core) : (s.netTxRaw frame).net = s.net := by
  rw [Core.netTxRaw]
  split_ifs <;> rfl

@[simp] lemma dhcpSendRequest_net (s : Core) : s.dhcpSendRequest.net = s.net := by
  rw [Core.dhcpSendRequest, Core.sendIpv4Udp]
  split_ifs
  · rfl
  · rw [netTxRaw_net]

lemma arpInput_net (len : ℕ) (s : Core) : ((arpInput len s).val mem).net = s.net := by
  simp only [arpInput, val_ite, val_bind, val_pure]
  split_ifs <;> simp [Core.drop, Core.sendArpReply]

lemma icmpInput_net (p payloadLen : ℕ) (s : Core) :
    ((icmpInput p payloadLen s).val mem).net = s.net := by
  simp only [icmpInput, val_ite, val_bind, val_pure]
  split_ifs <;> simp [Core.drop, Core.sendIcmpEchoReply]

lemma dhcpOnOffer_net (pkt optsLen : ℕ) (s : Core) :
    ((dhcpOnOffer pkt optsLen s).val mem).net = s.net := by
  simp only [dhcpOnOffer, val_ite, val_bind, val_pure]
  split_ifs <;> simp

lemma dhcpInput_net (pkt dlen : ℕ) (s : Core) :
    ∃ ip, ((dhcpInput pkt dlen s).val mem).net = { s.net with ip := ip } := by
  have hack (optsLen : ℕ) (s : Core) :
      ∃ ip, ((dhcpOnAck pkt optsLen s).val mem).net = { s.net with ip := ip } := by
    simp only [dhcpOnAck, val_ite, val_bind, val_pure]
    split_ifs
    · exact ⟨_, rfl⟩
    · exact ⟨_, by rw [Core.sendArpRequest, netTxRaw_net]⟩
    · exact ⟨s.net.ip, rfl⟩
  simp only [dhcpInput, val_ite, val_bind, val_pure]
  split_ifs
  · exact ⟨s.net.ip, rfl⟩
  · obtain ⟨ip, hip⟩ := hack (min (dlen - dhcpMinPktLen) dhcpOptionsLen)
      ((dhcpOnOffer pkt (min (dlen - dhcpMinPktLen) dhcpOptionsLen) s).val mem)
    exact ⟨ip, by rw [hip, dhcpOnOffer_net]⟩
  · exact ⟨s.net.ip, rfl⟩

lemma udpInput_net (p payloadLen : ℕ) (s : Core) :
    ∃ ip, ((udpInput p payloadLen s).val mem).net = { s.net with ip := ip } := by
  simp only [udpInput, val_ite, val_bind, val_pure]
  split_ifs
  · exact ⟨s.net.ip, rfl⟩
  · exact dhcpInput_net _ _ { s with udpRx := s.udpRx + 1 }
  · exact ⟨s.net.ip, rfl⟩
  · exact ⟨s.net.ip, rfl⟩

def deliver (n : Net) (seg : Segment) : Net :=
  if seg.daddr ≠ n.ip then n
  else
    match n.tcpFindConn seg with
    | none => n
    | some i => n.setConn i (tcpInput n.tickCount seg (n.conns i, n.answers))

lemma netRxFrame_eq (f : List UInt8) (n : Net) : netRxFrame f n =
    if n.present then (tcpOfFrame f).elim n (deliver n) else n := by
  rw [netRxFrame, Net.target]
  cases n.present with
  | false => simp
  | true =>
    cases tcpOfFrame f with
    | none => simp
    | some seg =>
      by_cases hd : seg.daddr = n.ip
      · cases hc : n.tcpFindConn seg <;> simp [deliver, hd, hc]
      · simp [deliver, hd]

lemma tcpFrameInput_net {f : List UInt8} {p payloadLen : ℕ} (hp : p + payloadLen ≤ f.length)
    (hh : sizeofEth + sizeofIpv4 ≤ f.length) (s : Core) :
    ((tcpFrameInput p payloadLen s).val (memOf f)).net =
      (tcpOfPayload f p payloadLen).elim s.net (deliver s.net) := by
  have hip : sizeofIpv4 = 20 := rfl
  simp only [tcpFrameInput, tcpOfPayload, val_ite, val_bind, val_pure]
  simp only [val_ntohsAt, val_bytes, wordAt_memOf,
    bytes_memOf (f := f) (i := sizeofEth + 16) (n := 4) (by omega),
    bytes_memOf (f := f) (i := sizeofEth + 12) (n := 4) (by omega)]
  by_cases hlen : payloadLen < sizeofTcp
  · rw [if_pos hlen, if_pos hlen]
    rfl
  rw [if_neg hlen, if_neg hlen]
  generalize hthl : be16 f (p + 12) / 4096 % 16 * 4 = thl
  have hbool : (decide (thl < sizeofTcp) || decide (payloadLen < thl)) = true ↔
      thl < sizeofTcp ∨ payloadLen < thl := by simp
  by_cases hbad : thl < sizeofTcp ∨ payloadLen < thl
  · rw [if_pos (hbool.mpr hbad), if_pos hbad]
    split_ifs <;> rfl
  rw [if_neg (hbool.not.mpr hbad), if_neg hbad, bytes_memOf (by omega), Option.elim_some, deliver]
  by_cases hd : slice f (sizeofEth + 16) 4 = s.net.ip
  · rw [if_neg (not_not.mpr hd), if_neg (not_not.mpr hd)]
    rw [show (ntohlAt .payload (p + 4)).val (memOf f) = be32 f (p + 4) from rfl,
      show (ntohlAt .payload (p + 8)).val (memOf f) = be32 f (p + 8) from rfl]
    cases s.net.tcpFindConn _ <;> rfl
  · rw [if_pos hd, if_pos hd]

def NetAs (n : Net) (seg : Option Segment) (n' : Net) : Prop :=
  n' = seg.elim n (deliver n) ∨ seg = none ∧ ∃ ip, n' = { n with ip := ip }

lemma ipv4Input_net (f : List UInt8) (s : Core) (heth : be16 f 12 = ethTypeIpv4) :
    NetAs s.net (tcpOfFrame f) ((ipv4Input f.length s).val (memOf f)).net := by
  have h14 : sizeofEth = 14 := rfl
  have h20 : sizeofIpv4 = 20 := rfl
  have hbyte (i : ℕ) : (memOf f i).toNat = byteAt f i := rfl
  simp only [ipv4Input, tcpOfFrame, val_ite, val_bind, val_pure]
  simp only [val_ntohsAt, val_byte, wordAt_memOf, hbyte, heth, bne_self_eq_false,
    Bool.or_false, bne_iff_ne, decide_eq_true_eq, Bool.or_eq_true]
  by_cases hlen : f.length < sizeofEth + sizeofIpv4
  · rw [if_pos hlen, if_pos hlen, ite_self]
    exact .inl rfl
  rw [if_neg hlen, if_neg hlen, if_neg (by omega)]
  by_cases hv : byteAt f sizeofEth / 16 = 4
  · rw [if_neg (not_not.mpr hv), if_neg (not_not.mpr hv)]
    by_cases hi : byteAt f sizeofEth % 16 * 4 < sizeofIpv4 ∨ f.length < sizeofEth + byteAt f sizeofEth % 16 * 4
    · rw [if_pos hi, if_pos hi]
      exact .inl rfl
    rw [if_neg hi, if_neg hi]
    by_cases ht : be16 f (sizeofEth + 2) < byteAt f sizeofEth % 16 * 4 ∨
        f.length < sizeofEth + be16 f (sizeofEth + 2)
    · rw [if_pos ht, if_pos ht]
      exact .inl rfl
    rw [if_neg ht, if_neg ht]
    by_cases htcp : byteAt f (sizeofEth + 9) = ipv4ProtoTcp
    · rw [if_neg (not_not.mpr htcp), if_neg (by rw [htcp]; decide), if_pos htcp]
      exact .inl (tcpFrameInput_net (by omega) (by omega) _)
    rw [if_neg htcp, if_pos htcp]
    split_ifs
    · exact .inr ⟨rfl, udpInput_net ..⟩
    · exact .inl (icmpInput_net ..)
    · exact .inl rfl
  rw [if_pos hv, if_pos hv]
  exact .inl rfl

/-- A frame acts as the TCP part says, except that one without a segment may set the address of the
device. -/
def NetStep (f : List UInt8) (n : Net) (_ : Unit) (n' : Net) : Prop :=
  n' = netRxFrame f n ∨ netRxFrame f n = n ∧ ∃ ip, n' = { n with ip := ip }

def rxStep (f : List UInt8) (s : Core) : Unit × Core := ((), (s.netRxFrame f.length).val (memOf f))

lemma rxStep_net (f : List UInt8) (s : Core) : NetStep f s.net () (rxStep f s).2.net := by
  have hne : ethTypeArp ≠ ethTypeIpv4 := by decide
  have hnone (h : f.length < sizeofEth ∨ be16 f 12 ≠ ethTypeIpv4) : tcpOfFrame f = none := by
    rw [tcpOfFrame, if_pos (by simpa [bne_iff_ne] using h)]
  simp only [NetStep, rxStep, Core.netRxFrame, val_ite, val_bind, val_pure]
  rw [netRxFrame_eq]
  by_cases hp : (!s.net.present) = true ∨ f.length < sizeofEth
  · rw [if_pos hp]
    refine .inl ?_
    rcases hp with hp | hlen
    · rw [if_neg (by simpa using hp)]
    · rw [hnone (.inl hlen), Option.elim_none, ite_self]
  have hpres : s.net.present = true := by simpa using (not_or.mp hp).1
  rw [if_neg hp, if_pos hpres]
  by_cases ha : (ntohsAt .header 12).val (memOf f) = ethTypeArp
  · rw [if_pos ha, hnone (.inr (ha.trans_ne hne))]
    exact .inl (arpInput_net ..)
  rw [if_neg ha]
  by_cases hip : (ntohsAt .header 12).val (memOf f) = ethTypeIpv4
  · rw [if_pos hip]
    rcases ipv4Input_net f { s with rxFrames := s.rxFrames + 1 } hip with h | ⟨hseg, ip, h⟩
    · exact .inl h
    · exact .inr ⟨by rw [hseg]; rfl, ip, h⟩
  rw [if_neg hip, hnone (.inr hip)]
  exact .inl rfl

/-- **The whole of `net_rx_frame` refines its TCP part** over every sequence of frames. -/
theorem rxFrames_refine (fs : List (List UInt8)) (s : Core) :
    Trace NetStep fs s.net (runOps rxStep fs s).1 (runOps rxStep fs s).2.net :=
  (runOps_simulates (fun _ => True) Core.net (fun f s _ => ⟨trivial, rxStep_net f s⟩) fs trivial).2

end Obelisk
