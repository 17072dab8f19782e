import Obelisk.Paging.Hardware
import Obelisk.Slab.Model
import Obelisk.Vmm.Owned

/-!
# Access to user memory

`vmm_copy_from_user` and `vmm_copy_to_user` of `kernel/mm/vmm.c` copy only after
`vmm_verify_user_range` has looked at every page of the user range. A copy is recorded as the call of
`memcpy` that the function reaches.
-/

namespace Obelisk

open KLib Option

def zigUserCopyLenOk (len : ℕ) : ℕ := if 0x7ffff000 < len then 1 else 0

variable {P : Type} [FramePool P]

def verifyPages (pt : ℕ) (write : Bool) (m : Machine P) : ℕ → ℕ → ℤ
  | 0, _ => 0
  | n + 1, page =>
    let phys := mmuResolve pt page m
    if phys = 0 then -eFAULT
    else
      let flags := mmuGetFlags pt page m
      if !hasFlag flags ptePresent || !hasFlag flags pteUser then -eFAULT
      else if write && !hasFlag flags pteWritable then -eFAULT
      else verifyPages pt write m n (page + pageSize)

/-- `vmm_verify_user_range`; `current` is the page table of the current process, if it has one. -/
def vmmVerifyUserRange (current : Option ℕ) (addr size : ℕ) (write : Bool) (m : Machine P) : ℤ :=
  if addr = 0 then -eFAULT
  else if size = 0 then 0
  else if zigUserCopyLenOk size ≠ 0 then -eINVAL
  else if userSpaceEnd ≤ addr then -eFAULT
  else match current with
    | none => -eFAULT
    | some pt =>
      match zigU64AddOk addr size with
      | none => -eFAULT
      | some stop =>
        if userSpaceEnd < stop then -eFAULT
        else
          let start := alignDown addr pageSize
          verifyPages pt write m (pageCount start stop) start

/-- A copy that has been made. -/
structure Memcpy where
  dst : ℕ
  src : ℕ
  size : ℕ
  deriving DecidableEq, Repr

def vmmCopyFromUser (current : Option ℕ) (dst src size : ℕ) (m : Machine P) : ℤ × Option Memcpy :=
  if dst = 0 then (-eFAULT, none)
  else
    let ret := vmmVerifyUserRange current src size false m
    if ret < 0 then (ret, none) else (0, some ⟨dst, src, size⟩)

def vmmCopyToUser (current : Option ℕ) (dst src size : ℕ) (m : Machine P) : ℤ × Option Memcpy :=
  if src = 0 then (-eFAULT, none)
  else
    let ret := vmmVerifyUserRange current dst size true m
    if ret < 0 then (ret, none) else (0, some ⟨dst, src, size⟩)

/-! ## Pages -/

def UserEntry (mem : PhysMem) (pt : ℕ) (write : Bool) (virt : ℕ) : Prop :=
  ∃ r, hwWalk mem pt virt = some r ∧ (mem.read r.loc).getLsbD 2 = true ∧
    (write = true → (mem.read r.loc).getLsbD 1 = true)

def FrameNonzero (mem : PhysMem) (pt virt : ℕ) : Prop :=
  ∀ r, hwWalk mem pt virt = some r → pteGetFrame (mem.read r.loc) ≠ 0

variable {v w : ℕ}

lemma hwWalkFrom_page (h : v / 4096 = w / 4096) (mem : PhysMem) {levels : List ℕ}
    (hl : ∀ s ∈ levels, 12 ≤ s) (f : ℕ) :
    hwWalkFrom mem v levels f = hwWalkFrom mem w levels f := by
  induction levels generalizing f with
  | nil => rfl
  | cons s levels ih =>
    obtain ⟨hs, hl⟩ := List.forall_mem_cons.mp hl
    have hidx : v / 2 ^ s % 512 = w / 2 ^ s % 512 := by
      rw [← tableIndex_eq, ← tableIndex_eq, tableIndex_page hs h]
    rw [hwWalkFrom, hwWalkFrom, hidx]
    simp only [ih hl]

lemma hwWalk_page (h : v / 4096 = w / 4096) (mem : PhysMem) (root : ℕ) :
    hwWalk mem root v = hwWalk mem root w :=
  hwWalkFrom_page h mem (by decide) root

variable {mem : PhysMem} {pt : ℕ} {write : Bool}

lemma UserEntry.page (h : v / 4096 = w / 4096)
    (hv : UserEntry mem pt write v) : UserEntry mem pt write w := by
  rwa [UserEntry, ← hwWalk_page h]

lemma FrameNonzero.page (h : v / 4096 = w / 4096)
    (hv : FrameNonzero mem pt v) : FrameNonzero mem pt w := by
  rwa [FrameNonzero, ← hwWalk_page h]

lemma hasFlag_flags (e : BitVec 64) {k : ℕ} (hk : k < 12) :
    hasFlag (e &&& ~~~pageFrameMask) (1#64 <<< k) = e.getLsbD k := by
  refine (and_one_shiftLeft_bne (e &&& ~~~pageFrameMask) (by omega)).trans ?_
  rw [BitVec.getLsbD_and, BitVec.getLsbD_not, pageFrameMask_bit]
  simp [show ¬ 12 ≤ k by omega, show k < 64 by omega]

variable {root virt : ℕ} {m : Machine P} {r : HwLeaf}

lemma mmuGetFlags_hwWalk (h : hwWalk m.mem root virt = some r) :
    mmuGetFlags root virt m = m.mem.read r.loc &&& ~~~pageFrameMask := by
  have hl := hwWalk_loc m.mem root virt
  rw [h, map_some] at hl
  rw [mmuGetFlags, pagingWalk_false, (filter_eq_some_iff.mp hl.symm).1]

lemma hwWalk_present
    (h : hwWalk mem root virt = some r) : (mem.read r.loc).getLsbD 0 = true := by
  have hl := hwWalk_loc mem root virt
  rw [h, map_some] at hl
  rw [← pteIsPresent_eq]
  exact (filter_eq_some_iff.mp hl.symm).2

lemma pageCheck_iff {pt page : ℕ} (write : Bool) (m : Machine P) (hp : page % pageSize = 0) :
    (mmuResolve pt page m ≠ 0 ∧
      (!hasFlag (mmuGetFlags pt page m) ptePresent || !hasFlag (mmuGetFlags pt page m) pteUser) = false ∧
      (write && !hasFlag (mmuGetFlags pt page m) pteWritable) = false) ↔
    UserEntry m.mem pt write page ∧ FrameNonzero m.mem pt page := by
  rw [mmuResolve_eq, entryAt_hwWalk]
  cases hr : hwWalk m.mem pt page with
  | none =>
    refine iff_of_false (fun h => h.1 rfl) ?_
    rintro ⟨⟨r, hr', -⟩, -⟩
    exact nomatch hr.symm.trans hr'
  | some r =>
    have hoff : page &&& 0xFFF = 0 := by
      rwa [show 0xFFF = 2 ^ 12 - 1 by norm_num, Nat.and_two_pow_sub_one_eq_mod]
    have hentry : UserEntry m.mem pt write page ↔ (m.mem.read r.loc).getLsbD 2 = true ∧
        (write = true → (m.mem.read r.loc).getLsbD 1 = true) := by
      simp [UserEntry, hr]
    have hframe : FrameNonzero m.mem pt page ↔ pteGetFrame (m.mem.read r.loc) ≠ 0 := by
      simp [FrameNonzero, hr]
    rw [mmuGetFlags_hwWalk hr, hentry, hframe, show ptePresent = 1#64 <<< 0 from rfl,
      show pteUser = 1#64 <<< 2 from rfl, show pteWritable = 1#64 <<< 1 from rfl,
      hasFlag_flags _ (by norm_num), hasFlag_flags _ (by norm_num), hasFlag_flags _ (by norm_num),
      hwWalk_present hr, map_some]
    dsimp only
    rw [hoff, Nat.or_zero]
    cases write <;> simp <;> tauto

lemma verifyPages_spec (pt : ℕ) (write : Bool) (m : Machine P) {n page : ℕ} (hp : page % pageSize = 0) :
    (verifyPages pt write m n page = 0 ∨ verifyPages pt write m n page = -eFAULT) ∧
    (verifyPages pt write m n page = 0 ↔ ∀ j < n, UserEntry m.mem pt write (page + j * pageSize) ∧
      FrameNonzero m.mem pt (page + j * pageSize)) := by
  induction n generalizing page with
  | zero => exact ⟨.inl rfl, iff_of_true rfl nofun⟩
  | succ n ih =>
    have hnext : (page + pageSize) % pageSize = 0 := by rwa [Nat.add_mod_right]
    obtain ⟨hres, hiff⟩ := ih hnext
    have hcheck := @pageCheck_iff P _ pt page write m hp
    have hsplit : (∀ j < n + 1, UserEntry m.mem pt write (page + j * pageSize) ∧
          FrameNonzero m.mem pt (page + j * pageSize)) ↔
        (UserEntry m.mem pt write page ∧ FrameNonzero m.mem pt page) ∧
        ∀ j < n, UserEntry m.mem pt write (page + pageSize + j * pageSize) ∧
          FrameNonzero m.mem pt (page + pageSize + j * pageSize) := by
      rw [Nat.forall_lt_succ_left]
      simp only [zero_mul, add_zero, add_mul, one_mul, add_assoc,
        add_comm (_ * pageSize) pageSize]
    rw [hsplit, ← hcheck, ← hiff, verifyPages]
    dsimp only
    split_ifs with h0 h1 h2
    · exact ⟨.inr rfl, iff_of_false (by decide) fun h => h.1.1 h0⟩
    · exact ⟨.inr rfl, iff_of_false (by decide) fun h => by rw [h.1.2.1] at h1; cases h1⟩
    · exact ⟨.inr rfl, iff_of_false (by decide) fun h => by rw [h.1.2.2] at h2; cases h2⟩
    · refine ⟨hres, fun h => ⟨⟨h0, by simpa using h1, by simpa using h2⟩, h⟩, fun h => h.2⟩

def UserRange (mem : PhysMem) (pt : ℕ) (write : Bool) (addr size : ℕ) : Prop :=
  ∀ i < size, addr + i < userSpaceEnd ∧ UserEntry mem pt write (addr + i)

variable {addr size : ℕ}

lemma forall_pages_iff (hs : size ≠ 0) (haddr : addr < 2 ^ 64) {Q : ℕ → Prop}
    (hQ : ∀ v w, v / 4096 = w / 4096 → Q v → Q w) :
    (∀ j < pageCount (alignDown addr pageSize) (addr + size),
      Q (alignDown addr pageSize + j * pageSize)) ↔ ∀ i < size, Q (addr + i) := by
  have hround : alignDown addr pageSize = addr / 4096 * 4096 :=
    alignDown_two_pow (k := 12) haddr (by norm_num)
  rw [hround]
  simp only [pageCount, pageSize]
  constructor
  · intro h i hi
    refine hQ _ _ ?_ (h ((addr + i) / 4096 - addr / 4096) (by omega))
    omega
  intro h j hj
  -- the first page holds the first byte, the others start inside the range
  refine hQ _ _ ?_ (h (addr / 4096 * 4096 + j * 4096 - addr) (by omega))
  omega

lemma vmmVerifyUserRange_iff (write : Bool) (m : Machine P) (ha : addr ≠ 0)
    (hs : size ≠ 0) : ¬ vmmVerifyUserRange (some pt) addr size write m < 0 ↔
      size ≤ 0x7ffff000 ∧ UserRange m.mem pt write addr size ∧
        ∀ i < size, FrameNonzero m.mem pt (addr + i) := by
  have hend : userSpaceEnd = 2 ^ 47 := by decide
  have hfault : -eFAULT < 0 := by decide
  unfold vmmVerifyUserRange
  rw [if_neg ha, if_neg hs]
  by_cases hlen : 0x7ffff000 < size
  · rw [zigUserCopyLenOk, if_pos hlen, if_pos one_ne_zero]
    exact iff_of_false (not_not.mpr (by decide)) fun h => absurd h.1 (not_le.mpr hlen)
  rw [zigUserCopyLenOk, if_neg hlen, if_neg (not_not.mpr rfl)]
  split_ifs with hlow
  · refine iff_of_false (not_not.mpr hfault) fun h => ?_
    exact not_lt.mpr hlow (h.2.1 0 (pos_of_ne_zero hs)).1
  have hsum : addr + size < 2 ^ 64 := by omega
  simp only [zigU64AddOk, if_neg (not_le.mpr hsum)]
  by_cases hstop : userSpaceEnd < addr + size
  · rw [if_pos hstop]
    refine iff_of_false (not_not.mpr hfault) fun h => ?_
    have := (h.2.1 (size - 1) (by omega)).1
    omega
  rw [if_neg (by omega)]
  have hpage := alignDown_aligned addr
  obtain ⟨hcases, hzero⟩ := verifyPages_spec pt write m
    (n := pageCount (alignDown addr pageSize) (addr + size)) hpage
  have hpages := forall_pages_iff hs (by omega : addr < 2 ^ 64)
    (Q := fun v => UserEntry m.mem pt write v ∧ FrameNonzero m.mem pt v)
    fun v w h hv => ⟨hv.1.page h, hv.2.page h⟩
  have hsign : ¬ verifyPages pt write m (pageCount (alignDown addr pageSize) (addr + size))
      (alignDown addr pageSize) < 0 ↔ verifyPages pt write m
        (pageCount (alignDown addr pageSize) (addr + size)) (alignDown addr pageSize) = 0 := by
    rcases hcases with h | h
    · rw [h]
      decide
    rw [h]
    decide
  rw [hsign, hzero, hpages]
  constructor
  · intro h
    exact ⟨by omega, fun i hi => ⟨by omega, (h i hi).1⟩, fun i hi => (h i hi).2⟩
  intro h i hi
  exact ⟨(h.2.1 i hi).2, h.2.2 i hi⟩

lemma vmmVerifyUserRange_empty (write : Bool) (m : Machine P) (ha : addr ≠ 0) :
    vmmVerifyUserRange (some pt) addr 0 write m = 0 := by
  rw [vmmVerifyUserRange, if_neg ha, if_pos rfl]

lemma vmmVerifyUserRange_ok
    (h : ¬ vmmVerifyUserRange (some pt) addr size write m < 0) :
    size = 0 ∨ UserRange m.mem pt write addr size := by
  by_cases hs : size = 0
  · exact .inl hs
  have ha : addr ≠ 0 := by
    rintro rfl
    exact h (by rw [vmmVerifyUserRange, if_pos rfl]; decide)
  exact .inr ((vmmVerifyUserRange_iff write m ha hs).mp h).2.1

lemma vmmVerifyUserRange_accepts (ha : addr ≠ 0)
    (hsize : size ≤ 0x7ffff000) (hr : UserRange m.mem pt write addr size)
    (hf : ∀ i < size, FrameNonzero m.mem pt (addr + i)) :
    ¬ vmmVerifyUserRange (some pt) addr size write m < 0 := by
  by_cases hs : size = 0
  · rw [hs, vmmVerifyUserRange_empty write m ha]
    decide
  · exact (vmmVerifyUserRange_iff write m ha hs).mpr ⟨hsize, hr, hf⟩

/-- **Main.** For every page table of the current process, every kernel buffer and every user address
and size: a copy that is made is empty, or all its bytes lie in user space on pages that the user may
read, or write for `vmm_copy_to_user`; and every such range of at most `0x7ffff000` bytes, at an
address other than `NULL` and in frames other than `0`, is copied. -/
theorem user_copy_exact (pt : ℕ) (m : Machine P) (kbuf addr size : ℕ) :
    ((vmmCopyFromUser (some pt) kbuf addr size m).2 ≠ none → size = 0 ∨ UserRange m.mem pt false addr size) ∧
    ((vmmCopyToUser (some pt) addr kbuf size m).2 ≠ none → size = 0 ∨ UserRange m.mem pt true addr size) ∧
    (kbuf ≠ 0 → addr ≠ 0 → size ≤ 0x7ffff000 → (∀ i < size, FrameNonzero m.mem pt (addr + i)) →
      (UserRange m.mem pt false addr size →
        vmmCopyFromUser (some pt) kbuf addr size m = (0, some ⟨kbuf, addr, size⟩)) ∧
      (UserRange m.mem pt true addr size →
        vmmCopyToUser (some pt) addr kbuf size m = (0, some ⟨addr, kbuf, size⟩))) := by
  refine ⟨fun h => ?_, fun h => ?_, fun hk ha hsize hf => ⟨fun hr => ?_, fun hr => ?_⟩⟩
  · unfold vmmCopyFromUser at h
    dsimp only at h
    split_ifs at h with h0 hneg
    · exact absurd rfl h
    · exact absurd rfl h
    · exact vmmVerifyUserRange_ok hneg
  · unfold vmmCopyToUser at h
    dsimp only at h
    split_ifs at h with h0 hneg
    · exact absurd rfl h
    · exact absurd rfl h
    · exact vmmVerifyUserRange_ok hneg
  · unfold vmmCopyFromUser
    dsimp only
    rw [if_neg hk, if_neg (vmmVerifyUserRange_accepts ha hsize hr hf)]
  unfold vmmCopyToUser
  dsimp only
  rw [if_neg hk, if_neg (vmmVerifyUserRange_accepts ha hsize hr hf)]

theorem user_copy_exact_small : let m := (mmuMap 1 0x401000 0x5000 pteUser smallMachine).2
    vmmCopyFromUser (some 1) 64 0x401ff0 16 m = (0, some ⟨64, 0x401ff0, 16⟩) ∧
      vmmCopyFromUser (some 1) 64 0x401ff0 17 m = (-eFAULT, none) ∧
      vmmCopyToUser (some 1) 0x401ff0 64 16 m = (-eFAULT, none) := by
  intro m
  have hwalk : hwWalk m.mem 1 0x401000 = some ⟨[(1, 0), (2, 0), (3, 2)], (4, 1), 12⟩ := by
    decide +kernel
  have hpage : ∀ i < 16, 0x401000 / 4096 = (0x401ff0 + i) / 4096 := by omega
  refine ⟨((user_copy_exact 1 m 64 0x401ff0 16).2.2 (by decide) (by decide) (by decide)
    fun i hi => ?_).1 fun i hi => ⟨?_, ?_⟩, by decide +kernel, by decide +kernel⟩
  · refine FrameNonzero.page (hpage i hi) fun r hr => ?_
    rw [← some.inj (hwalk.symm.trans hr)]
    decide +kernel
  · rw [userSpaceEnd]
    omega
  · exact UserEntry.page (hpage i hi) ⟨_, hwalk, by decide +kernel, nofun⟩

end Obelisk
