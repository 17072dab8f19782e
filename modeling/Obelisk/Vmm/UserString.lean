import Obelisk.Vmm.UserAccess

/-!
# Strings of the user

`copy_user_cstring` of `arch/x86_64/process/syscall.c` copies a string of the user in chunks of 64
bytes until a chunk holds the terminator.
-/

namespace Obelisk

open KLib

def eNAMETOOLONG : ℤ := 36

def zigFirstZeroByte (buf : ℕ → BitVec 8) (len : ℕ) : ℤ :=
  match (List.range len).find? fun i => buf i == 0 with
  | some i => i
  | none => -1

def copied (buf : ℕ → BitVec 8) (off size : ℕ) (src : ℕ → BitVec 8) : ℕ → BitVec 8 := fun i =>
  if off ≤ i ∧ i < off + size then src (i - off) else buf i

variable {P : Type} [FramePool P]

/-- The loop of `copy_user_cstring` from offset `off` on, over at most `fuel` chunks; `user` are the
bytes at the user's addresses and `buf` those of the buffer at `kernelBuf`. -/
def copyChunks (pt userPtr kernelBuf cap : ℕ) (user : ℕ → BitVec 8) (m : Machine P) :
    ℕ → ℕ → (ℕ → BitVec 8) → ℤ × (ℕ → BitVec 8)
  | 0, _, buf => (-eNAMETOOLONG, Function.update buf (cap - 1) 0)
  | fuel + 1, off, buf =>
    if off < cap then
      let chunk := min (cap - off) 64
      if (vmmCopyFromUser (some pt) (kernelBuf + off) (userPtr + off) chunk m).1 < 0 then (-eFAULT, buf)
      else
        let buf := copied buf off chunk fun i => user (userPtr + off + i)
        if 0 ≤ zigFirstZeroByte (fun i => buf (off + i)) chunk then (0, buf)
        else copyChunks pt userPtr kernelBuf cap user m fuel (off + chunk) buf
    else (-eNAMETOOLONG, Function.update buf (cap - 1) 0)

def copyUserCstring (pt userPtr kernelBuf cap : ℕ) (user : ℕ → BitVec 8) (m : Machine P)
    (buf : ℕ → BitVec 8) : ℤ × (ℕ → BitVec 8) :=
  if userPtr = 0 ∨ kernelBuf = 0 ∨ cap = 0 then (-eFAULT, buf)
  else copyChunks pt userPtr kernelBuf cap user m cap 0 buf

lemma zigFirstZeroByte_nonneg {buf : ℕ → BitVec 8} {len : ℕ} :
    0 ≤ zigFirstZeroByte buf len ↔ ∃ i < len, buf i = 0 := by
  rw [zigFirstZeroByte]
  cases h : (List.range len).find? fun i => buf i == 0 with
  | some i =>
    have hmem := List.mem_range.mp (List.mem_of_find?_eq_some h)
    have hzero := List.find?_some h
    exact iff_of_true (Int.natCast_nonneg i) ⟨i, hmem, beq_iff_eq.mp hzero⟩
  | none =>
    refine iff_of_false (by decide) ?_
    rintro ⟨i, hi, hzero⟩
    exact List.find?_eq_none.mp h i (List.mem_range.mpr hi) (beq_iff_eq.mpr hzero)

def Readable (mem : PhysMem) (pt v : ℕ) : Prop :=
  v < userSpaceEnd ∧ UserEntry mem pt false v ∧ FrameNonzero mem pt v

lemma vmmCopyFromUser_iff {dst src size : ℕ} (pt : ℕ) (m : Machine P) (hd : dst ≠ 0) (hs : src ≠ 0)
    (h0 : size ≠ 0) (h64 : size ≤ 64) : ¬ (vmmCopyFromUser (some pt) dst src size m).1 < 0 ↔
      ∀ i < size, Readable m.mem pt (src + i) := by
  have hret : (vmmCopyFromUser (some pt) dst src size m).1 < 0 ↔
      vmmVerifyUserRange (some pt) src size false m < 0 := by
    unfold vmmCopyFromUser
    dsimp only
    rw [if_neg hd]
    split_ifs with hneg
    · exact .rfl
    · exact iff_of_false (lt_irrefl 0) hneg
  rw [hret, vmmVerifyUserRange_iff false m hs h0]
  constructor
  · intro h i hi
    exact ⟨(h.2.1 i hi).1, (h.2.1 i hi).2, h.2.2 i hi⟩
  intro h
  exact ⟨by omega, fun i hi => ⟨(h i hi).1, (h i hi).2.1⟩, fun i hi => (h i hi).2.2⟩

section Loop

variable {pt userPtr kernelBuf cap n : ℕ} {user : ℕ → BitVec 8} {m : Machine P}

def Delivers (user : ℕ → BitVec 8) (userPtr n : ℕ) (r : ℤ × (ℕ → BitVec 8)) : Prop :=
  r.1 = 0 ∧ ∀ i ≤ n, r.2 i = user (userPtr + i)

lemma not_delivers_fault (buf : ℕ → BitVec 8) : ¬ Delivers user userPtr n (-eFAULT, buf) :=
  fun h => absurd h.1 (show (-eFAULT : ℤ) ≠ 0 by decide)

def chunkEnd (cap n : ℕ) : ℕ := min (64 * (n / 64 + 1)) cap

lemma copyChunks_iff (hp : userPtr ≠ 0) (hk : kernelBuf ≠ 0) (hn : n < cap)
    (hz : user (userPtr + n) = 0) (hne : ∀ i < n, user (userPtr + i) ≠ 0) {fuel j : ℕ}
    (hj : j ≤ n / 64) (hfuel : n / 64 < j + fuel) {buf : ℕ → BitVec 8}
    (hbuf : ∀ i < 64 * j, buf i = user (userPtr + i)) :
    Delivers user userPtr n (copyChunks pt userPtr kernelBuf cap user m fuel (64 * j) buf) ↔
      ∀ i, 64 * j ≤ i → i < chunkEnd cap n → Readable m.mem pt (userPtr + i) := by
  -- the induction is on the chunks that are left
  induction fuel generalizing j buf with
  | zero => omega
  | succ fuel ih =>
    have hoff : 64 * j < cap := by omega
    have hchunk : min (cap - 64 * j) 64 ≠ 0 := by omega
    have hread := vmmCopyFromUser_iff pt m (show kernelBuf + 64 * j ≠ 0 by omega)
      (show userPtr + 64 * j ≠ 0 by omega) hchunk (by omega)
    rw [copyChunks, if_pos hoff]
    dsimp only
    by_cases hneg : (vmmCopyFromUser (some pt) (kernelBuf + 64 * j) (userPtr + 64 * j)
        (min (cap - 64 * j) 64) m).1 < 0
    · rw [if_pos hneg]
      refine iff_of_false (not_delivers_fault buf) fun h => ?_
      refine absurd hneg (hread.mpr fun i hi => ?_)
      rw [add_assoc]
      exact h _ (by omega) (by simp only [chunkEnd]; omega)
    rw [if_neg hneg]
    have hok := hread.mp hneg
    generalize hbuf' : copied buf (64 * j) (min (cap - 64 * j) 64) (fun i => user (userPtr + 64 * j + i)) = buf'
    have hcopy : ∀ i < 64 * j + min (cap - 64 * j) 64, buf' i = user (userPtr + i) := by
      intro i hi
      rw [← hbuf', copied]
      split_ifs with hin
      · congr 1
        omega
      · exact hbuf i (by omega)
    obtain hlast | hmore : j = n / 64 ∨ j < n / 64 := by omega
    · -- this chunk holds the terminator
      have hnul : 0 ≤ zigFirstZeroByte (fun i => buf' (64 * j + i)) (min (cap - 64 * j) 64) := by
        refine zigFirstZeroByte_nonneg.mpr ⟨n - 64 * j, by omega, ?_⟩
        rw [show 64 * j + (n - 64 * j) = n by omega, hcopy n (by omega), hz]
      rw [if_pos hnul]
      refine iff_of_true ⟨rfl, fun i hi => hcopy i (by omega)⟩ ?_
      intro i hlo hhi
      simp only [chunkEnd] at hhi
      rw [show userPtr + i = userPtr + 64 * j + (i - 64 * j) by omega]
      exact hok _ (by omega)
    have hfull : min (cap - 64 * j) 64 = 64 := by omega
    have hnul : ¬ 0 ≤ zigFirstZeroByte (fun i => buf' (64 * j + i)) (min (cap - 64 * j) 64) := by
      rw [zigFirstZeroByte_nonneg]
      rintro ⟨i, hi, hzero⟩
      rw [hcopy _ (by omega)] at hzero
      exact hne _ (by omega) hzero
    rw [if_neg hnul, hfull, ← Nat.mul_succ, ih hmore (by omega) fun i hi => hcopy i (by omega)]
    constructor
    · intro h i hlo hhi
      by_cases hi : i < 64 * (j + 1)
      · rw [show userPtr + i = userPtr + 64 * j + (i - 64 * j) by omega]
        exact hok _ (by omega)
      · exact h i (by omega) hhi
    intro h i hlo hhi
    exact h i (by omega) hhi

end Loop

/-- **Main.** For every page table and every string of the user with its terminator at offset
`n < cap`: the call returns `0` with the string in the buffer exactly if the pointer is not `NULL` and
every byte up to the end of the 64-byte chunk of the terminator, or up to the capacity, can be read. -/
theorem copyUserCstring_iff (pt userPtr kernelBuf cap n : ℕ) (user : ℕ → BitVec 8) (m : Machine P)
    (buf : ℕ → BitVec 8) (hk : kernelBuf ≠ 0) (hn : n < cap)
    (hz : user (userPtr + n) = 0) (hne : ∀ i < n, user (userPtr + i) ≠ 0) :
    Delivers user userPtr n (copyUserCstring pt userPtr kernelBuf cap user m buf) ↔
      userPtr ≠ 0 ∧ ∀ i < chunkEnd cap n, Readable m.mem pt (userPtr + i) := by
  rw [copyUserCstring]
  by_cases hp : userPtr = 0
  · rw [if_pos (.inl hp)]
    exact iff_of_false (not_delivers_fault buf) fun h => h.1 hp
  rw [if_neg (by omega), and_iff_right hp, ← mul_zero 64,
    copyChunks_iff hp hk hn hz hne (Nat.zero_le _) (by omega) nofun]
  exact forall_congr' fun i => ⟨fun h => h (Nat.zero_le i), fun h _ => h⟩

theorem copyUserCstring_small : let m := (mmuMap 1 0x401000 0x5000 pteUser smallMachine).2
    let user := fun v => if v = 0x401001 then 0 else 97
    Delivers user 0x401000 1 (copyUserCstring 1 0x401000 64 256 user m fun _ => 255) := by
  intro m user
  have hwalk : hwWalk m.mem 1 0x401000 = some ⟨[(1, 0), (2, 0), (3, 2)], (4, 1), 12⟩ := by
    decide +kernel
  refine (copyUserCstring_iff 1 0x401000 64 256 1 _ m _ (by decide) (by decide) (by decide)
    (by decide)).mpr ⟨by decide, fun i hi => ?_⟩
  have hlt : i < 64 := hi
  have hpage : 0x401000 / 4096 = (0x401000 + i) / 4096 := by omega
  refine ⟨by rw [userSpaceEnd]; omega, ?_, ?_⟩
  · exact UserEntry.page hpage ⟨_, hwalk, by decide +kernel, by rintro ⟨⟩⟩
  refine FrameNonzero.page hpage fun r hr => ?_
  rw [← Option.some.inj (hwalk.symm.trans hr)]
  decide +kernel

/-- The string `a` 16 bytes before the end of the only page that the user has: both its bytes can be
read, but the chunk of 64 bytes cannot. -/
theorem copyUserCstring_page_end : let m := (mmuMap 1 0x401000 0x5000 pteUser smallMachine).2
    vmmCopyFromUser (some 1) 64 0x401ff0 2 m = (0, some ⟨64, 0x401ff0, 2⟩) ∧
      (copyUserCstring 1 0x401ff0 64 256 (fun v => if v = 0x401ff1 then 0 else 97) m
        fun _ => 255).1 = -eFAULT := by
  decide +kernel

end Obelisk
