import Obelisk.Net.Frame

/-!
# What is read of a received frame

- `rxFrame_reads_iff`: when all reads lie inside the frame.
-/

namespace Obelisk

open KLib Reads

variable {mem : ℕ → UInt8} {P : FramePart → ℕ → Prop} {s : Core} {i optsLen pkt : ℕ}

def wordAt (mem : ℕ → UInt8) (i : ℕ) : ℕ := (mem i).toNat * 256 + (mem (i + 1)).toNat

@[simp] lemma val_ntohsAt (r : FramePart) (i : ℕ) : (ntohsAt r i).val mem = wordAt mem i := rfl

@[simp] lemma within_ntohsAt (r : FramePart) (i : ℕ) :
    Within P (ntohsAt r i) mem ↔ P r i ∧ P r (i + 1) := by
  simp [ntohsAt]

@[simp] lemma within_ntohlAt (r : FramePart) (i : ℕ) :
    Within P (ntohlAt r i) mem ↔ (P r i ∧ P r (i + 1)) ∧ P r (i + 2) ∧ P r (i + 2 + 1) := by
  simp [ntohlAt]

lemma within_dhcpOption {code len : UInt8} (o : DhcpOptions)
    (h : ∀ k < len.toNat, P .payload (i + k)) : Within P (dhcpOption i code len o) mem := by
  simp only [dhcpOption, within_ite, within_bind, within_byte, within_bytes, within_pure, and_true]
  refine ⟨fun hc => ?_, fun _ => ⟨fun hc k hk => ?_, fun _ => ⟨fun hc k hk => ?_, fun _ =>
    ⟨fun hc k hk => ?_, fun _ => trivial⟩⟩⟩⟩
  · exact h 0 (by rw [hc.2]; decide)
  · exact h k (by rwa [hc.2])
  · exact h k (lt_of_lt_of_le hk (UInt8.le_iff_toNat_le.mp hc.2))
  · exact h k (by rwa [hc.2])

lemma within_dhcpParseOptions {opts : ℕ} (h : ∀ k < optsLen, P .payload (opts + k))
    (n : ℕ) (hi : optsLen - i ≤ n) (o : DhcpOptions) :
    Within P (dhcpParseOptions opts optsLen i o) mem := by
  induction n generalizing i o with
  | zero =>
    rw [dhcpParseOptions, if_neg (by omega)]
    exact within_pure _
  | succ n ih =>
    rw [dhcpParseOptions]
    simp only [within_ite, within_bind, within_byte, within_pure, and_true, implies_true, true_and]
    intro hlt
    refine ⟨h i hlt, fun _ => ⟨fun _ => ih (by omega) o, fun _ hlt' => ⟨h (i + 1) (by omega), ?_⟩⟩⟩
    intro hlen
    refine ⟨within_dhcpOption o fun k hk => ?_, ih (by omega) _⟩
    rw [add_assoc]
    exact h (i + 2 + k) (by simp only [val_byte] at hk hlen; omega)

lemma within_dhcpReply (h : ∀ k < dhcpMinPktLen + optsLen, P .payload (pkt + k)) (s t : Core) :
    Within P (dhcpOnOffer pkt optsLen s) mem ∧ Within P (dhcpOnAck pkt optsLen t) mem := by
  simp only [dhcpOnOffer, dhcpOnAck, within_ite, within_bind, within_bytes, within_pure, and_true, implies_true]
  refine ⟨⟨?_, fun _ k hk => ?_⟩, ?_, fun _ k hk => ?_⟩
  any_goals
    refine within_dhcpParseOptions (fun k hk => ?_) optsLen (by omega) _
  all_goals
    rw [add_assoc]
    exact h _ (by unfold dhcpMinPktLen at *; omega)

lemma within_dhcpInput {dlen : ℕ} (h : ∀ k < dlen, P .payload (pkt + k)) (s : Core) :
    Within P (dhcpInput pkt dlen s) mem := by
  have hmin : dhcpMinPktLen = 240 := rfl
  simp only [dhcpInput, within_ite, within_bind, within_byte, within_ntohlAt,
    within_pure, implies_true, true_and, and_true]
  intro hlen
  have hopts : ∀ k < dhcpMinPktLen + min (dlen - dhcpMinPktLen) dhcpOptionsLen,
      P .payload (pkt + k) := fun k hk => h k (by omega)
  refine ⟨h 0 (by omega), ⟨⟨h 4 (by omega), h 5 (by omega)⟩, h 6 (by omega), h 7 (by omega)⟩,
    ⟨⟨h 236 (by omega), h 237 (by omega)⟩, h 238 (by omega), h 239 (by omega)⟩, fun _ => ?_⟩
  exact within_dhcpReply hopts s _

def destAt (mem : ℕ → UInt8) : List UInt8 := (List.range 4).map fun k => mem (sizeofEth + 16 + k)

def udpPushed (mem : ℕ → UInt8) (p payloadLen : ℕ) (s : Core) : Prop :=
  s.dhcp.takes payloadLen (wordAt mem p) (wordAt mem (p + 2)) (wordAt mem (p + 4)) = false ∧
    destAt mem = s.net.ip ∧ sizeofUdp < wordAt mem (p + 4)

section Payload

variable {p payloadLen : ℕ} (hh : ∀ o < sizeofEth + sizeofIpv4, P .header o)
  (hp : ∀ k < payloadLen, P .payload (p + k))
include hh hp

lemma within_udpInput (hlen : sizeofUdp ≤ payloadLen) :
    Within P (udpInput p payloadLen s) mem ↔ (udpPushed mem p payloadLen s →
      ∀ k < min (wordAt mem (p + 4) - sizeofUdp) udpEventLen, P .payload (p + sizeofUdp + k)) := by
  have h8 : sizeofUdp = 8 := rfl
  have hdhcp : s.dhcp.takes payloadLen (wordAt mem p) (wordAt mem (p + 2)) (wordAt mem (p + 4)) = true →
      Within P (dhcpInput (p + sizeofUdp) (wordAt mem (p + 4) - sizeofUdp)
        { s with udpRx := s.udpRx + 1 }) mem := by
    intro ht
    have hle : wordAt mem (p + 4) ≤ payloadLen := by
      simp only [Dhcp.takes, Bool.and_eq_true, decide_eq_true_eq] at ht
      exact ht.1.1.1.2
    refine within_dhcpInput (fun k hk => ?_) _
    rw [add_assoc]
    exact hp _ (by omega)
  -- the conditions are split before the values in them are rewritten
  simp only [udpInput, within_ite, within_bind, within_ntohsAt, within_bytes, within_pure]
  simp only [val_ntohsAt, val_bytes, and_true, implies_true, true_and]
  constructor
  · rintro h ⟨ht, hd, hu⟩ k hk
    have h' := (h (by omega)).2.2.2.2 (by simp [ht])
    exact (h'.2 ⟨hd, hu⟩).2 k hk
  intro h _
  refine ⟨⟨hp 0 (by omega), hp 1 (by omega)⟩, ⟨hp 2 (by omega), hp 3 (by omega)⟩,
    ⟨hp 4 (by omega), hp 5 (by omega)⟩, hdhcp, fun ht => ⟨fun k hk => ?_, fun hd => ⟨fun k hk => ?_, ?_⟩⟩⟩
  · exact hh _ (by unfold sizeofIpv4; omega)
  · exact hh _ (by unfold sizeofIpv4; omega)
  · exact h ⟨by simpa using ht, hd.1, hd.2⟩

lemma within_tcpFrameInput : Within P (tcpFrameInput p payloadLen s) mem := by
  have h20 : sizeofTcp = 20 := rfl
  have hip : sizeofIpv4 = 20 := rfl
  simp only [tcpFrameInput, within_ite, within_bind, within_ntohsAt, within_ntohlAt, within_bytes, within_pure]
  simp only [and_true, implies_true, true_and, not_or, not_lt]
  intro hlen
  refine ⟨fun k hk => hh _ (by omega), fun _ => ⟨⟨hp 12 (by omega), hp 13 (by omega)⟩, fun hthl => ?_⟩⟩
  refine ⟨⟨hp 0 (by omega), hp 1 (by omega)⟩, ⟨hp 2 (by omega), hp 3 (by omega)⟩,
    ⟨⟨hp 4 (by omega), hp 5 (by omega)⟩, hp 6 (by omega), hp 7 (by omega)⟩,
    ⟨⟨hp 8 (by omega), hp 9 (by omega)⟩, hp 10 (by omega), hp 11 (by omega)⟩,
    fun k hk => hh _ (by omega), fun k hk => ?_⟩
  rw [add_assoc]
  exact hp _ (by omega)

lemma within_icmpInput : Within P (icmpInput p payloadLen s) mem := by
  have h8 : sizeofIcmpEcho = 8 := rfl
  have hip : sizeofIpv4 = 20 := rfl
  have heth : sizeofEth = 14 := rfl
  simp only [icmpInput, within_ite, within_bind, within_byte, within_bytes, within_pure]
  simp only [and_true, implies_true, true_and]
  refine ⟨fun k hk => hh _ (by omega), fun _ hlen => ⟨hp 0 (by omega), fun _ _ => ?_, fun _ _ => ?_⟩⟩
  · exact ⟨fun k hk => hh _ (by omega), fun k hk => hh _ (by omega), hp⟩
  · exact ⟨fun k hk => hh _ (by omega), fun k hk => hp k (by omega)⟩

end Payload

lemma within_arpInput {len : ℕ} (h : ∀ o < len, P .header o) :
    Within P (arpInput len s) mem := by
  have harp : sizeofArp = 28 := rfl
  have heth : sizeofEth = 14 := rfl
  simp only [arpInput, within_ite, within_bind, within_byte, within_ntohsAt, within_bytes, within_pure]
  simp only [and_true, implies_true, true_and]
  intro hlen
  refine ⟨⟨h _ (by omega), h _ (by omega)⟩, ⟨h _ (by omega), h _ (by omega)⟩, h _ (by omega),
    h _ (by omega), fun _ => ⟨⟨h _ (by omega), h _ (by omega)⟩, fun k hk => h _ (by omega),
      fun k hk => h _ (by omega), fun k hk => h _ (by omega), fun _ k hk => h _ (by omega)⟩⟩

def ihlAt (mem : ℕ → UInt8) : ℕ := (mem sizeofEth).toNat % 16 * 4

def totalLenAt (mem : ℕ → UInt8) : ℕ := wordAt mem (sizeofEth + 2)

def InFrame (len : ℕ) (mem : ℕ → UInt8) (r : FramePart) (o : ℕ) : Prop :=
  o < len ∧ (r = .payload → o < sizeofEth + totalLenAt mem)

/-- The frame is an IPv4 datagram for `udp_event_push`, and what is copied of it reaches behind the
payload. -/
structure UdpOverrun (len : ℕ) (mem : ℕ → UInt8) (s : Core) : Prop where
  present : s.net.present = true
  ethertype : wordAt mem 12 = ethTypeIpv4
  version : (mem sizeofEth).toNat / 16 = 4
  ihl : sizeofIpv4 ≤ ihlAt mem
  total : ihlAt mem + sizeofUdp ≤ totalLenAt mem
  fits : sizeofEth + totalLenAt mem ≤ len
  protocol : (mem (sizeofEth + 9)).toNat = ipv4ProtoUdp
  pushed : udpPushed mem (sizeofEth + ihlAt mem) (totalLenAt mem - ihlAt mem) s
  overrun : totalLenAt mem - ihlAt mem <
    sizeofUdp + min (wordAt mem (sizeofEth + ihlAt mem + 4) - sizeofUdp) udpEventLen

/-- The frame holds an IPv4 packet whose lengths agree. -/
structure IsIpv4 (len : ℕ) (mem : ℕ → UInt8) : Prop where
  version : (mem sizeofEth).toNat / 16 = 4
  ihl : sizeofIpv4 ≤ ihlAt mem
  total : ihlAt mem ≤ totalLenAt mem
  fits : sizeofEth + totalLenAt mem ≤ len

section Ipv4

variable {len : ℕ} (h : IsIpv4 len mem)
include h

lemma inFrame_header : ∀ o < sizeofEth + sizeofIpv4, InFrame len mem .header o := by
  have h1 := h.ihl
  have h2 := h.total
  have h3 := h.fits
  exact fun o ho => ⟨by omega, nofun⟩

lemma inFrame_payload : ∀ k < totalLenAt mem - ihlAt mem,
    InFrame len mem .payload (sizeofEth + ihlAt mem + k) := by
  have h2 := h.total
  have h3 := h.fits
  exact fun k hk => ⟨by omega, fun _ => by omega⟩

lemma within_udpFrame : Within (InFrame len mem)
      (udpInput (sizeofEth + ihlAt mem) (totalLenAt mem - ihlAt mem) s) mem ↔
    (ihlAt mem + sizeofUdp ≤ totalLenAt mem → udpPushed mem (sizeofEth + ihlAt mem) (totalLenAt mem - ihlAt mem) s →
      sizeofUdp + min (wordAt mem (sizeofEth + ihlAt mem + 4) - sizeofUdp) udpEventLen ≤
        totalLenAt mem - ihlAt mem) := by
  have h2 := h.total
  have h3 := h.fits
  by_cases hlen : ihlAt mem + sizeofUdp ≤ totalLenAt mem
  · rw [within_udpInput (inFrame_header h) (inFrame_payload h) (by omega)]
    simp only [hlen, true_imp_iff]
    refine imp_congr_right fun _ => ⟨fun hk => ?_, fun hle k hk => ⟨by omega, fun _ => by omega⟩⟩
    by_contra hlt
    have := (hk (totalLenAt mem - ihlAt mem - sizeofUdp) (by omega)).2 rfl
    omega
  rw [udpInput, if_pos (by omega)]
  exact ⟨fun _ h => absurd h hlen, fun _ => within_pure _⟩

end Ipv4

lemma within_ipv4Input (len : ℕ) (mem : ℕ → UInt8) (s : Core) : Within (InFrame len mem) (ipv4Input len s) mem ↔
      (IsIpv4 len mem → (mem (sizeofEth + 9)).toNat = ipv4ProtoUdp →
        Within (InFrame len mem) (udpInput (sizeofEth + ihlAt mem)
          (totalLenAt mem - ihlAt mem) { s with ipv4Rx := s.ipv4Rx + 1 }) mem) := by
  have heth : sizeofEth = 14 := rfl
  have hip : sizeofIpv4 = 20 := rfl
  have hihl : (mem sizeofEth).toNat % 16 * 4 = ihlAt mem := rfl
  have htotal : wordAt mem (sizeofEth + 2) = totalLenAt mem := rfl
  have hhdr {o : ℕ} (h : o < len) : InFrame len mem .header o := ⟨h, nofun⟩
  simp only [ipv4Input, within_ite, within_bind, within_byte, within_ntohsAt, within_pure]
  simp only [and_true, implies_true, true_and, val_ntohsAt, val_byte, not_or, not_lt,
    ne_eq, not_not, hihl, htotal]
  constructor
  · intro hin h hproto
    have h1 := h.ihl
    have h2 := h.total
    have h3 := h.fits
    exact ((((hin (by omega)).2 h.version ⟨h1, by omega⟩).2 ⟨h2, h3⟩).2).1 hproto
  intro hudp hlen
  refine ⟨hhdr (by omega), fun hv hi => ⟨⟨hhdr (by omega), hhdr (by omega)⟩, fun ht =>
    ⟨hhdr (by omega), ?_⟩⟩⟩
  have h : IsIpv4 len mem := ⟨hv, hi.1, ht.1, ht.2⟩
  exact ⟨hudp h, fun _ => ⟨fun _ => within_tcpFrameInput (inFrame_header h) (inFrame_payload h),
    fun _ _ => within_icmpInput (inFrame_header h) (inFrame_payload h)⟩⟩

/-- **The reads of `net_rx_frame` are inside the frame** and, for the payload of IPv4, inside the total
length, just when the frame is not a datagram whose length field reaches behind the payload. -/
theorem rxFrame_reads_iff (len : ℕ) (mem : ℕ → UInt8) (s : Core) :
    Within (InFrame len mem) (s.netRxFrame len) mem ↔ ¬ UdpOverrun len mem s := by
  have heth : sizeofEth = 14 := rfl
  have hhdr {o : ℕ} (h : o < len) : InFrame len mem .header o := ⟨h, nofun⟩
  have hne : ethTypeIpv4 ≠ ethTypeArp := by decide
  simp only [Core.netRxFrame, within_ite, within_bind, within_ntohsAt, within_pure]
  simp only [and_true, implies_true, true_and, val_ntohsAt, Bool.not_eq_true', not_or, not_lt,
    Bool.not_eq_false, within_ipv4Input]
  constructor
  · intro hin ho
    have h : IsIpv4 len mem := ⟨ho.version, ho.ihl, by have := ho.total; omega, ho.fits⟩
    have hfits := ho.fits
    have hudp := ((hin ⟨ho.present, by omega⟩).2.2 (by rwa [ho.ethertype]) ho.ethertype) h ho.protocol
    have hle := (within_udpFrame h).mp hudp ho.total ho.pushed
    have := ho.overrun
    omega
  intro hno hlen
  refine ⟨⟨hhdr (by omega), hhdr (by omega)⟩, fun _ => within_arpInput fun o ho => hhdr ho,
    fun _ hip h hproto => (within_udpFrame h).mpr fun htotal hpush => ?_⟩
  by_contra hlt
  exact hno ⟨hlen.1, hip, h.version, h.ihl, htotal, h.fits, hproto, hpush, by omega⟩

def overrunFrame : List UInt8 :=
  [0, 0, 0, 0, 0, 0, 0, 0, 0, 0, 0, 0, 8, 0, 0x45, 0, 0, 28, 0, 0, 0, 0, 64, 17, 0, 0, 10, 0, 2, 2, 10, 0, 2, 15,
    3, 232, 7, 208, 0, 9, 0, 0]

theorem overrun_read_behind : let mem := fun i => overrunFrame.getD i 77
    let r := (Core.start [2, 0, 0, 0, 0, 1]).netRxFrame overrunFrame.length
    ((r.val mem).udpEvents.slots 0).map (·.payload) = some [77] ∧
      ¬ Within (InFrame overrunFrame.length mem) r mem := by
  intro mem r
  have hlog : (FramePart.payload, overrunFrame.length) ∈ r.log mem := by decide +kernel
  exact ⟨by decide +kernel, fun h => absurd (h _ hlog).1 (lt_irrefl _)⟩

end Obelisk
