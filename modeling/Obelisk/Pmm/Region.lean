import Obelisk.Pmm.Pool

/-!
# Contiguous allocation is complete

The single pass of `bitmap_find_free_region` finds the lowest run of free frames, and the shortcut on
the free counter of a zone skips no zone that has one.
-/

namespace Obelisk

open KLib

def FreeRun (bitmap : ℕ → BitVec 32) (p n : ℕ) : Prop :=
  ∀ j, p ≤ j → j < p + n → bitmapTest bitmap j = false

def NoRunBelow (bitmap : ℕ → BitVec 32) (count a p : ℕ) : Prop :=
  ∀ q, a ≤ q → q < p → ¬ FreeRun bitmap q count

/-- What the search says about the runs that start at `a` or later: where there is none, and up to
where the one that it returns is the first. -/
def SearchesFrom (bitmap : ℕ → BitVec 32) (count a stop : ℕ) : Option ℕ → Prop
  | none => ∀ q, a ≤ q → q + count ≤ stop → ¬ FreeRun bitmap q count
  | some p => NoRunBelow bitmap count a p

/-- The accumulators describe the run that ends before `i`: `first` is where it starts, and no run
that is long enough starts before. -/
theorem bitmapFindFreeRegionLoop_lowest {bitmap : ℕ → BitVec 32} {count i n fs fc first a : ℕ}
    (hi : i + n < 2 ^ 64) (hfirst : first = if fc = 0 then i else fs) (hend : first + fc = i)
    (hfc : fc < count) (hbelow : NoRunBelow bitmap count a first) :
    SearchesFrom bitmap count a (i + n) (bitmapFindFreeRegionLoop bitmap count i n fs fc) := by
  induction n generalizing i fs fc first with
  | zero =>
    intro q haq hq hrun
    exact hbelow q haq (by omega) hrun
  | succ n ih =>
    have hlen : i + (n + 1) = i + 1 + n := by omega
    rw [bitmapFindFreeRegionLoop, hlen]
    by_cases hb : bitmapTest bitmap i = true
    · -- a used frame: a run that starts up to here would contain it
      simp only [hb, Bool.not_true, Bool.false_eq_true, if_false]
      apply ih (by omega) (if_pos rfl).symm rfl (by omega)
      intro q haq hq hrun
      by_cases hqf : q < first
      · exact hbelow q haq hqf hrun
      have hfree := hrun i (by omega) (by omega)
      rw [hb] at hfree
      exact Bool.noConfusion hfree
    rw [Bool.not_eq_true] at hb
    simp only [hb, Bool.not_false, if_true, ← hfirst]
    rw [u64_of_lt (show fc + 1 < 2 ^ 64 by omega)]
    split_ifs with hc
    · exact hbelow
    · exact ih (by omega) (if_neg (by omega)).symm (by omega) (by omega) hbelow

lemma bitmapFindFreeRegion_lowest {bitmap : ℕ → BitVec 32} {start stop count : ℕ}
    (hcount : 0 < count) (hs : stop < 2 ^ 63) :
    SearchesFrom bitmap count start stop (bitmapFindFreeRegion bitmap start stop count) := by
  rw [bitmapFindFreeRegion]
  by_cases hle : start ≤ stop
  · have hloop : SearchesFrom bitmap count start (start + (stop - start))
        (bitmapFindFreeRegionLoop bitmap count start (stop - start) 0 0) :=
      bitmapFindFreeRegionLoop_lowest (by omega) (if_pos rfl).symm rfl hcount
        fun q h1 h2 => absurd h1 (not_le.mpr h2)
    rwa [Nat.add_sub_cancel' hle] at hloop
  rw [Nat.sub_eq_zero_of_le (Nat.le_of_not_le hle)]
  intro q hq hstop
  omega

def ZoneType.rank : ZoneType → ℕ
  | .normal => 0
  | .high => 1
  | .dma => 2

namespace Pmm

/-- `n` free frames of the zone from `p` on. -/
structure ZoneRun (s : Pmm) (z : ZoneType) (n p : ℕ) : Prop where
  lower : (s.zones z).startPfn ≤ p
  upper : p + n ≤ (s.zones z).endPfn
  free : FreeRun s.bitmap p n

/-- The first such run. -/
structure LowestRun (s : Pmm) (z : ZoneType) (n p : ℕ) : Prop where
  run : s.ZoneRun z n p
  lowest : ∀ q < p, ¬ s.ZoneRun z n q

variable {s : Pmm} {z : ZoneType} {n p : ℕ}

lemma ZoneRun.le_freePages (h : s.ZoneRun z n p) (hs : s.Inv) : n ≤ (s.zones z).freePages := by
  have hsub : Finset.Ico p (p + n) ⊆ s.freeFrames z := by
    intro j hj
    obtain ⟨h1, h2⟩ := Finset.mem_Ico.mp hj
    exact mem_freeFrames.mpr ⟨⟨h.lower.trans h1, h2.trans_le h.upper⟩, h.free j h1 h2⟩
  have hcard := (hs.card_le hsub).1
  rwa [Nat.card_Ico, Nat.add_sub_cancel_left] at hcard

lemma pmmAllocPagesZone_lowest (hs : s.Inv) (hn : 0 < n) (z : ZoneType) :
    (pmmAllocPagesZone n z s = (0, s) ∧ ∀ p, ¬ s.ZoneRun z n p) ∨
      ∃ p, s.LowestRun z n p ∧ (pmmAllocPagesZone n z s).1 = p * pageSize := by
  rw [pmmAllocPagesZone]
  split_ifs with hshort
  · exact .inl ⟨rfl, fun p hp => not_le.mpr hshort (hp.le_freePages hs)⟩
  have hend : (s.zones z).endPfn < 2 ^ 63 := by
    have := hs.end_le z
    omega
  have hfirst : SearchesFrom s.bitmap n (s.zones z).startPfn (s.zones z).endPfn
      (bitmapFindFreeRegion s.bitmap (s.zones z).startPfn (s.zones z).endPfn n) :=
    bitmapFindFreeRegion_lowest hn hend
  cases hfind : bitmapFindFreeRegion s.bitmap (s.zones z).startPfn (s.zones z).endPfn n with
  | none =>
    rw [hfind] at hfirst
    exact .inl ⟨rfl, fun p hp => hfirst p hp.lower hp.upper hp.free⟩
  | some p =>
    rw [hfind] at hfirst
    obtain ⟨hlo, hup, -, hfree⟩ := bitmapFindFreeRegion_some hfind hend
    have haddr : pfnToPhys p = p * pageSize := by
      have := hs.end_le z
      rw [pfnToPhys, Nat.shiftLeft_eq, u64_of_lt (by omega)]
      rfl
    exact .inr ⟨p, ⟨⟨hlo, hup, hfree⟩, fun q hq hrun => hfirst q hrun.lower hq hrun.free⟩, haddr⟩

/-- **Main.** If frame `0` is used and the counters are accurate, `pmm_alloc_pages` returns the lowest
run of the first of the zones Normal, High, DMA that has one; it returns `0` if no zone has one. -/
theorem pmmAllocPages_lowest (hs : s.Inv) (h0 : bitmapTest s.bitmap 0 = true) (hn : 1 ≤ n) :
    ((pmmAllocPages n s).1 = 0 ∧ ∀ z p, ¬ s.ZoneRun z n p) ∨
      ∃ z p, s.LowestRun z n p ∧ (∀ w : ZoneType, w.rank < z.rank → ∀ q, ¬ s.ZoneRun w n q) ∧
        (pmmAllocPages n s).1 = p * pageSize ∧ (pmmAllocPages n s).1 ≠ 0 := by
  have hzone := pmmAllocPagesZone_lowest hs hn
  -- no run starts at frame 0, so that an address that is returned is not `NULL`
  have hpos : ∀ {z p}, s.LowestRun z n p → p * pageSize ≠ 0 := by
    intro z p hp hz
    obtain rfl | hz := Nat.mul_eq_zero.mp hz
    · have hfree := hp.run.free 0 le_rfl (by omega)
      rw [h0] at hfree
      exact Bool.noConfusion hfree
    · exact absurd hz (by decide)
  rw [pmmAllocPages, tryZones]
  obtain ⟨hnormal, hno⟩ | ⟨p, hp, haddr⟩ := hzone .normal
  · rw [hnormal]
    simp only [ne_eq, not_true_eq_false, if_false]
    obtain ⟨hhigh, hno'⟩ | ⟨p, hp, haddr⟩ := hzone .high
    · rw [hhigh]
      simp only [not_true_eq_false, if_false]
      obtain ⟨hdma, hno''⟩ | ⟨p, hp, haddr⟩ := hzone .dma
      · rw [hdma]
        refine .inl ⟨rfl, fun z => ?_⟩
        cases z
        · exact hno''
        · exact hno
        · exact hno'
      refine .inr ⟨.dma, p, hp, fun w hw => ?_, haddr, haddr ▸ hpos hp⟩
      cases w
      · exact absurd hw (by decide)
      · exact hno
      · exact hno'
    have hne : (pmmAllocPagesZone n .high s).1 ≠ 0 := haddr ▸ hpos hp
    rw [if_pos hne]
    refine .inr ⟨.high, p, hp, fun w hw => ?_, haddr, hne⟩
    cases w
    · exact absurd hw (by decide)
    · exact hno
    · exact absurd hw (by decide)
  have hne : (pmmAllocPagesZone n .normal s).1 ≠ 0 := haddr ▸ hpos hp
  dsimp only
  rw [if_pos hne]
  exact .inr ⟨.normal, p, hp, nofun, haddr, hne⟩

def threeFree : Pmm := (PmmOp.exec (.markRegionFree 0x5000 0x2000)
  (PmmOp.exec (.markRegionFree 0x3000 0x1000) (pmmInitBitmap 16 pmmStatic)).2).2

theorem pmmAllocPages_lowest_small : (pmmAllocPages 2 threeFree).1 = 5 * pageSize ∧
      ∃ z p, threeFree.LowestRun z 2 p ∧ (pmmAllocPages 2 threeFree).1 = p * pageSize := by
  have haddr : (pmmAllocPages 2 threeFree).1 = 5 * pageSize := by decide +kernel
  have hinv : threeFree.Inv :=
    (exec_inv (exec_inv (pmmInitBitmap_inv 16 none 0) _).1 _).1
  refine ⟨haddr, ?_⟩
  obtain ⟨hzero, -⟩ | ⟨z, p, hp, -, hpa, -⟩ :=
    pmmAllocPages_lowest hinv (by decide +kernel) (show 1 ≤ 2 by decide)
  · rw [haddr] at hzero
    exact absurd hzero (by decide)
  · exact ⟨z, p, hp, hpa⟩

end Pmm

end Obelisk
