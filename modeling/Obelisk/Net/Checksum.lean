import Obelisk.Lib.Text
import Obelisk.Net.Model

/-!
# The Internet checksum

`ip_checksum` and `tcp_checksum` of `kernel/net/core.c`: 16-bit words added in a `uint32_t`, whose upper
half is then folded into the lower one.
-/

namespace Obelisk.Checksum

open KLib List

def addWords (sum : ℕ) : Bytes → ℕ
  | a :: b :: p => addWords ((sum + (a.toNat * 256 + b.toNat)) % 2 ^ 32) p
  | [a] => (sum + a.toNat * 256) % 2 ^ 32
  | [] => sum

def fold (sum : ℕ) : ℕ := if sum / 65536 = 0 then sum else fold (sum % 65536 + sum / 65536)
termination_by sum
decreasing_by omega

def ipChecksum (buf : Bytes) : ℕ := 65535 - fold (addWords 0 buf)

/-- What `tcp_checksum` adds before the segment; it stays below `2 ^ 32`. -/
def pseudoHeader (srcIp dstIp : Fin 4 → UInt8) (segLen : ℕ) : ℕ :=
  (srcIp 0).toNat * 256 + (srcIp 1).toNat + ((dstIp 0).toNat * 256 + (dstIp 1).toNat) +
    ((srcIp 2).toNat * 256 + (srcIp 3).toNat) + ((dstIp 2).toNat * 256 + (dstIp 3).toNat) +
    ipv4ProtoTcp + segLen

def tcpChecksum (srcIp dstIp : Fin 4 → UInt8) (segment : Bytes) : ℕ :=
  65535 - fold (addWords (pseudoHeader srcIp dstIp segment.length) segment)

/-- The packet with `c` big-endian in its field. -/
def withField (pre post : Bytes) (c : ℕ) : Bytes := pre ++ .ofNat (c / 256) :: .ofNat c :: post

variable {pre post : Bytes} {start c : ℕ}

lemma fold_spec (s : ℕ) : fold s ≤ 65535 ∧ fold s % 65535 = s % 65535 ∧ (fold s = 0 ↔ s = 0) := by
  fun_induction fold s with
  | case1 s h => omega
  | case2 s h ih => omega

/-- The sum of the words without a bound. -/
def total : Bytes → ℕ
  | a :: b :: p => a.toNat * 256 + b.toNat + total p
  | [a] => a.toNat * 256
  | [] => 0

lemma total_le (p : Bytes) : total p ≤ 65535 * ((p.length + 1) / 2) := by
  fun_induction total p with
  | case1 a b p ih =>
    have := a.toNat_lt
    have := b.toNat_lt
    simp only [length_cons]
    omega
  | case2 a =>
    have := a.toNat_lt
    simp only [length_singleton]
    omega
  | case3 => exact Nat.zero_le _

lemma addWords_eq (p : Bytes) (h : start + total p < 2 ^ 32) : addWords start p = start + total p := by
  fun_induction addWords start p with
  | case1 start a b p ih =>
    rw [total] at h ⊢
    rw [ih] <;> omega
  | case2 start a => exact Nat.mod_eq_of_lt h
  | case3 start => rfl

lemma total_withField (heven : pre.length % 2 = 0) (hc : c < 65536) :
    total (withField pre post c) = total (withField pre post 0) + c := by
  rw [withField, withField]
  fun_induction total pre with
  | case1 a b p ih =>
    rw [length_cons, length_cons] at heven
    simp only [cons_append, total]
    rw [ih (by omega)]
    omega
  | case2 a => cases heven
  | case3 =>
    simp only [nil_append, total, UInt8.toNat_ofNat']
    omega

lemma length_withField : (withField pre post c).length = (withField pre post 0).length := by simp [withField]

/-- A word `c` verifies in a field whose checksum is `d`. -/
def Verifies (d c : ℕ) : Prop := c % 65535 = d % 65535 ∧ (d = 65535 → c ≠ 0)

lemma zero_iff (hs : start ≤ 400000) (heven : pre.length % 2 = 0) (hlen : (withField pre post 0).length ≤ 65535)
    (hc : c < 65536) : 65535 - fold (addWords start (withField pre post c)) = 0 ↔
      Verifies (65535 - fold (addWords start (withField pre post 0))) c := by
  have hle := total_le (withField pre post 0)
  have htotal : total (withField pre post c) = _ := total_withField heven hc
  rw [addWords_eq _ (by omega), addWords_eq _ (by omega), htotal, Verifies]
  have h0 := fold_spec (start + total (withField pre post 0))
  have h1 := fold_spec (start + (total (withField pre post 0) + c))
  omega

lemma pseudoHeader_le (srcIp dstIp : Fin 4 → UInt8) {n : ℕ} (hn : n ≤ 65535) :
    pseudoHeader srcIp dstIp n ≤ 400000 := by
  have hs (i) := (srcIp i).toNat_lt
  have hd (i) := (dstIp i).toNat_lt
  have := hs 0
  have := hs 1
  have := hs 2
  have := hs 3
  have := hd 0
  have := hd 1
  have := hd 2
  have := hd 3
  rw [pseudoHeader, ipv4ProtoTcp]
  omega

/-- **Checksums verify**: with the checksum in the aligned field that was zero, the checksum is zero. -/
theorem checksum_verifies (srcIp dstIp : Fin 4 → UInt8) (pre post : Bytes)
    (heven : pre.length % 2 = 0) (hlen : (withField pre post 0).length ≤ 65535) :
    ipChecksum (withField pre post (ipChecksum (withField pre post 0))) = 0 ∧
    tcpChecksum srcIp dstIp
      (withField pre post (tcpChecksum srcIp dstIp (withField pre post 0))) = 0 := by
  have hself (d : ℕ) : Verifies d d := ⟨rfl, by rintro rfl; decide⟩
  refine ⟨(zero_iff (Nat.zero_le _) heven hlen (Nat.lt_succ_of_le (Nat.sub_le ..))).mpr (hself _), ?_⟩
  rw [tcpChecksum, length_withField]
  exact (zero_iff (pseudoHeader_le srcIp dstIp hlen) heven hlen (Nat.lt_succ_of_le (Nat.sub_le ..))).mpr (hself _)

theorem checksum_verifies_odd :
    ipChecksum (withField [69, 0] [7] (ipChecksum (withField [69, 0] [7] 0))) = 0 :=
  (checksum_verifies (fun _ => 10) (fun _ => 1) [69, 0] [7] (by decide) (by decide)).1

/-- **Any other word is detected**, where `0` and `0xFFFF` are one. -/
theorem checksum_zero_iff (srcIp dstIp : Fin 4 → UInt8) (pre post : Bytes) (heven : pre.length % 2 = 0)
    (hlen : (withField pre post 0).length ≤ 65535) (hc : c < 65536) :
    (ipChecksum (withField pre post c) = 0 ↔ Verifies (ipChecksum (withField pre post 0)) c) ∧
    (tcpChecksum srcIp dstIp (withField pre post c) = 0 ↔
      Verifies (tcpChecksum srcIp dstIp (withField pre post 0)) c) := by
  refine ⟨zero_iff (Nat.zero_le _) heven hlen hc, ?_⟩
  rw [tcpChecksum, tcpChecksum, length_withField]
  exact zero_iff (pseudoHeader_le srcIp dstIp hlen) heven hlen hc

theorem checksum_zero_odd :
    ipChecksum (withField [69, 0] [7] 1) = 0 ↔ Verifies (ipChecksum (withField [69, 0] [7] 0)) 1 :=
  (checksum_zero_iff (fun _ => 10) (fun _ => 1) [69, 0] [7] (by decide) (by decide) (by decide)).1

end Obelisk.Checksum
