import Obelisk.Paging.Hardware
import Obelisk.Vmm.Model

/-!
# Packed relative relocations

`apply_dt_relr` of `kernel/proc/exec.c` reads a table of words from the memory of the process.
-/

namespace Obelisk.Relr

open KLib Function List

variable {fuel p : ℕ} {whereVa : BitVec 64}

/-! ## Model -/

def eNOEXEC : ℤ := 8

abbrev Bytes := ℕ → BitVec 8

def poke (places : List ℕ) (src : List (BitVec 8)) (bytes : Bytes) : Bytes :=
  (places.zip src).foldl (fun bytes x => update bytes x.1 x.2) bytes

def ofBytes (l : List (BitVec 8)) : BitVec 64 := .ofNat 64 (l.foldr (fun b w => b.toNat + 256 * w) 0)

def toBytes (w : BitVec 64) : List (BitVec 8) := (range 8).map fun j => w.extractLsb' (8 * j) 8

/-- The page table of the process, and `loader_exec_debug_enabled`. -/
structure UserSpace (P : Type) where
  pt : ℕ
  machine : Machine P
  debug : Bool

variable {P : Type} [FramePool P] (u : UserSpace P)

def resolve (a : BitVec 64) : ℕ := mmuResolve u.pt a.toNat u.machine

/-- What the loader checks while debugging is enabled: a page of the user, and one that can be written
for a write. -/
def checked (write : Bool) (a : BitVec 64) : Bool :=
  let flags := mmuGetFlags u.pt a.toNat u.machine
  flags &&& ptePresent != 0 && flags &&& pteUser != 0 && (!write || flags &&& pteWritable != 0)

def room (uaddr : BitVec 64) : ℕ := pageSize - uaddr.toNat % pageSize

/-- The loop of `read_user_memory` and `write_user_memory` over at most `fuel` pages: the result, and
the physical addresses that are copied from or to. -/
def copyRange (write : Bool) : ℕ → BitVec 64 → ℕ → ℤ × List ℕ
  | 0, _, _ => (0, [])
  | fuel + 1, uaddr, len =>
    if len = 0 then (0, [])
    else if resolve u uaddr = 0 then (-eFAULT, [])
    else if u.debug && !checked u write uaddr then (-eFAULT, [])
    else
      let chunk := min len (room uaddr)
      let r := copyRange write fuel (uaddr + chunk) (len - chunk)
      (r.1, range' (resolve u uaddr) chunk ++ r.2)

@[irreducible] def readUserMemory (uaddr : BitVec 64) (len : ℕ) (bytes : Bytes) :
    Option (List (BitVec 8)) :=
  let r := copyRange u false len uaddr len
  if r.1 < 0 then none else some (r.2.map bytes)

@[irreducible] def writeUserMemory (uaddr : BitVec 64) (src : List (BitVec 8)) (bytes : Bytes) :
    ℤ × Bytes :=
  let r := copyRange u true src.length uaddr src.length
  (r.1, poke r.2 src bytes)

def readUserU64 (uaddr : BitVec 64) (bytes : Bytes) : Option (BitVec 64) :=
  (readUserMemory u uaddr 8 bytes).map ofBytes

def writeUserU64 (uaddr value : BitVec 64) (bytes : Bytes) : ℤ × Bytes :=
  writeUserMemory u uaddr (toBytes value) bytes

def relocate (bias addr : BitVec 64) (bytes : Bytes) : ℤ × Bytes :=
  match readUserU64 u addr bytes with
  | none => (-eFAULT, bytes)
  | some val => writeUserU64 u addr (val + bias) bytes

def relrBits (bias whereVa : BitVec 64) : ℕ → ℕ → BitVec 64 → Bytes → ℤ × Bytes
  | 0, _, _, bytes => (0, bytes)
  | fuel + 1, i, bitmap, bytes =>
    let bitmap := bitmap >>> 1
    if bitmap = 0 then (0, bytes)
    else if bitmap &&& 1 = 0 then relrBits bias whereVa fuel (i + 1) bitmap bytes
    else
      let r := relocate u bias (whereVa + i * 8) bytes
      if r.1 < 0 then r else relrBits bias whereVa fuel (i + 1) bitmap r.2

def relrLoop (bias relrVa : BitVec 64) : ℕ → ℕ → BitVec 64 → Bool → Bytes → ℤ × Bytes
  | 0, _, _, _, bytes => (0, bytes)
  | n + 1, o, whereVa, haveWhere, bytes =>
    match readUserU64 u (relrVa + o) bytes with
    | none => (-eFAULT, bytes)
    | some rel =>
      if rel &&& 1 = 0 then
        let r := relocate u bias (bias + rel) bytes
        if r.1 < 0 then r else relrLoop bias relrVa n (o + 8) (bias + rel + 8) true r.2
      else if haveWhere = false then (-eNOEXEC, bytes)
      else
        let r := relrBits u bias whereVa 64 0 rel bytes
        if r.1 < 0 then r else relrLoop bias relrVa n (o + 8) (whereVa + 63 * 8) haveWhere r.2

def applyDtRelr (bias relrVa : BitVec 64) (relrSz : ℕ) (bytes : Bytes) : ℤ × Bytes :=
  relrLoop u bias relrVa ((relrSz + 7) / 8) 0 0 false bytes

def bitWords (cursor e : BitVec 64) : List (BitVec 64) :=
  ((range 63).filter fun i => e.getLsbD (i + 1)).map fun i : ℕ => cursor + i * 8

def expand (bias : BitVec 64) : BitVec 64 → List (BitVec 64) → List (BitVec 64)
  | _, [] => []
  | cursor, e :: l =>
    if e.getLsbD 0 then bitWords cursor e ++ expand bias (cursor + 63 * 8) l
    else (bias + e) :: expand bias (bias + e + 8) l

def places (a : BitVec 64) (n : ℕ) : List ℕ := (range n).map fun j : ℕ => resolve u (a + j)

def wordAt (bytes : Bytes) (a : BitVec 64) : BitVec 64 := ofBytes ((places u a 8).map bytes)

def addBias (bias : BitVec 64) (addrs : List (BitVec 64)) (bytes : Bytes) : Bytes :=
  addrs.foldl (fun bytes a => poke (places u a 8) (toBytes (wordAt u bytes a + bias)) bytes) bytes

def table (bytes : Bytes) (va : BitVec 64) : ℕ → List (BitVec 64)
  | 0 => []
  | n + 1 => wordAt u bytes va :: table bytes (va + 8) n

def Mapped (write : Bool) (a : BitVec 64) (n : ℕ) : Prop :=
  ∀ j < n, resolve u (a + j) ≠ 0 ∧ (u.debug = true → checked u write (a + j) = true)

def Apart (a va : BitVec 64) (n : ℕ) : Prop :=
  ∀ k < n, resolve u (va + k) ∉ places u a 8

def FirstOdd (l : List (BitVec 64)) : Prop := ∃ e ∈ l.head?, e.getLsbD 0 = true

variable {u} {write : Bool} {bytes : Bytes} {a va bias : BitVec 64} {n k : ℕ}

/-! ## Copies -/

lemma add_cast (a : BitVec 64) (j k : ℕ) : a + ((j + k : ℕ) : BitVec 64) = a + j + k := by
  apply BitVec.eq_of_toNat_eq
  simp [← add_assoc]

lemma Mapped.drop (h : Mapped u write a (k + n)) : Mapped u write (a + k) n := by
  intro j hj
  rw [← add_cast]
  exact h (k + j) (by omega)

lemma Mapped.read (h : Mapped u true a n) : Mapped u false a n := by
  intro j hj
  obtain ⟨hr, hc⟩ := h j hj
  simp only [checked, Bool.not_true, Bool.not_false, Bool.false_or, Bool.true_or, Bool.and_true,
    Bool.and_eq_true] at hc ⊢
  exact ⟨hr, fun hd => (hc hd).1⟩

lemma Apart.drop (h : Apart u a va (k + n)) : Apart u a (va + k) n := by
  intro j hj
  rw [← add_cast]
  exact h (k + j) (by omega)

lemma places_add : places u a (k + n) = places u a k ++ places u (a + k) n := by
  simp only [places, range_add, map_append, map_map, append_cancel_left_eq]
  congr 1
  funext j
  rw [comp_apply, add_cast]

lemma resolve_add (h : resolve u a ≠ 0) (hk : k < room a) :
    resolve u (a + k) = resolve u a + k := by
  simp only [room, pageSize] at hk
  have hnat : (a + (k : BitVec 64)).toNat = a.toNat + k := by
    simp
    omega
  have hpage : (a.toNat + k) / 4096 = a.toNat / 4096 := by omega
  unfold resolve at h ⊢
  simp only [mmuResolve_eq] at h ⊢
  rw [hnat, entryAt_page hpage]
  cases he : entryAt u.machine.mem u.pt a.toNat with
  | none => simp [he] at h
  | some e =>
    simp only [pteGetFrame_eq, or_pageOffset]
    omega

lemma range'_resolve (h : resolve u a ≠ 0) (hn : n ≤ room a) :
    range' (resolve u a) n = places u a n := by
  rw [range'_eq_map_range, places]
  exact map_congr_left fun j hj => (resolve_add h (by simp at hj; omega)).symm

lemma copyRange_eq (hf : n ≤ fuel) (h : Mapped u write a n) :
    copyRange u write fuel a n = (0, places u a n) := by
  induction fuel generalizing a n with
  | zero =>
    obtain rfl : n = 0 := by omega
    rfl
  | succ fuel ih =>
    unfold copyRange
    split_ifs with h0 hr hc
    · simp [h0, places]
    · exact absurd hr (by simpa using (h 0 (by omega)).1)
    · simp only [Bool.and_eq_true, Bool.not_eq_true'] at hc
      have := (h 0 (by omega)).2 hc.1
      simp [hc.2] at this
    have hpos : 0 < room a := by
      simp only [room, pageSize]
      omega
    have hle : min n (room a) + (n - min n (room a)) = n := by omega
    simp only
    rw [ih (by omega) (Mapped.drop (hle.symm ▸ h)), range'_resolve hr (min_le_right ..), ← places_add, hle]

lemma readUserU64_eq (h : Mapped u false a 8) :
    readUserU64 u a bytes = some (wordAt u bytes a) := by
  rw [readUserU64, readUserMemory, copyRange_eq le_rfl h]
  rfl

lemma relocate_eq (h : Mapped u true a 8) :
    relocate u bias a bytes = (0, addBias u bias [a] bytes) := by
  simp only [relocate, readUserU64_eq h.read, writeUserU64, writeUserMemory]
  rw [show (toBytes _).length = 8 by simp [toBytes], copyRange_eq le_rfl h]
  rfl

lemma and_one_eq_zero {w : BitVec 64} : w &&& 1 = 0 ↔ w.getLsbD 0 = false := by
  rw [show (1 : BitVec 64) = 1#64 from rfl, BitVec.and_one_eq_setWidth_ofBool_getLsbD]
  cases w.getLsbD 0 <;> decide

lemma relrBits_eq {e : BitVec 64} {i : ℕ} (hf : 64 ≤ fuel + i) (h : ∀ a ∈ bitWords whereVa e, Mapped u true a 8) :
    relrBits u bias whereVa fuel i (e >>> i) bytes = (0, addBias u bias
      (((range' i (63 - i)).filter fun i => e.getLsbD (i + 1)).map fun i : ℕ =>
        whereVa + i * 8) bytes) := by
  induction fuel generalizing i bytes with
  | zero =>
    rw [show 63 - i = 0 by omega]
    rfl
  | succ fuel ih =>
    have hbit : (e >>> (i + 1)).getLsbD 0 = e.getLsbD (i + 1) := by simp
    unfold relrBits
    simp only [BitVec.shiftRight_add e i 1 |>.symm, and_one_eq_zero, hbit]
    by_cases h0 : e >>> (i + 1) = 0
    · have hnone : ∀ j ∈ range' i (63 - i), e.getLsbD (j + 1) = false := by
        intro j hj
        have hge := (mem_range'_1.mp hj).1
        have := congrArg (BitVec.getLsbD · (j - i)) h0
        simpa [show i + 1 + (j - i) = j + 1 by omega] using this
      rw [if_pos h0, filter_eq_nil_iff.mpr fun j hj => by simp [hnone j hj]]
      rfl
    have hi : i < 63 := by
      by_contra hge
      refine h0 (BitVec.eq_of_getLsbD_eq fun j _ => ?_)
      simp [show 64 ≤ i + 1 + j by omega]
    rw [if_neg h0, show 63 - i = 63 - (i + 1) + 1 by omega, range'_succ]
    cases hset : e.getLsbD (i + 1) with
    | false => rw [if_pos rfl, ih (by omega), filter_cons_of_neg (by simp [hset])]
    | true =>
      have hmem : whereVa + i * 8 ∈ bitWords whereVa e := by
        simp only [bitWords, mem_map, mem_filter, mem_range]
        exact ⟨i, ⟨hi, hset⟩, rfl⟩
      rw [if_neg (by simp), relocate_eq (h _ hmem), if_neg (by simp), ih (by omega),
        filter_cons_of_pos (p := fun j => e.getLsbD (j + 1)) hset]
      rfl

lemma poke_of_notMem {l : List ℕ} {src : List (BitVec 8)} (h : p ∉ l) :
    poke l src bytes p = bytes p := by
  induction l generalizing src bytes with
  | nil => rfl
  | cons q l ih =>
    rw [mem_cons, not_or] at h
    cases src with
    | nil => rfl
    | cons b src => exact (ih h.2).trans (update_of_ne h.1 ..)

lemma addBias_of_notMem {l : List (BitVec 64)} (h : ∀ a ∈ l, p ∉ places u a 8) :
    addBias u bias l bytes p = bytes p := by
  induction l generalizing bytes with
  | nil => rfl
  | cons a l ih =>
    rw [forall_mem_cons] at h
    exact (ih h.2).trans (poke_of_notMem h.1)

lemma table_congr {bytes' : Bytes} (h : ∀ k < 8 * n, bytes' (resolve u (va + k)) = bytes (resolve u (va + k))) :
    table u bytes' va n = table u bytes va n := by
  induction n generalizing va with
  | zero => rfl
  | succ n ih =>
    have hword : wordAt u bytes' va = wordAt u bytes va := by
      simp only [wordAt, places, map_map]
      exact congrArg _ (map_congr_left fun j hj => h j (by simp at hj; omega))
    rw [table, table, hword, ih]
    intro k hk
    have := h (8 + k) (by omega)
    rwa [add_cast] at this

lemma relrLoop_eq {haveWhere : Bool} {o : ℕ} (hw : haveWhere = true ∨ ¬ FirstOdd (table u bytes (va + o) n))
    (ht : Mapped u false (va + o) (8 * n))
    (h : ∀ a ∈ expand bias whereVa (table u bytes (va + o) n), Mapped u true a 8 ∧ Apart u a (va + o) (8 * n)) :
    relrLoop u bias va n o whereVa haveWhere bytes =
      (0, addBias u bias (expand bias whereVa (table u bytes (va + o) n)) bytes) := by
  induction n generalizing o whereVa haveWhere bytes with
  | zero => rfl
  | succ n ih =>
    have hnext : va + o + 8 = va + ((o + 8 : ℕ) : BitVec 64) := (add_cast va o 8).symm
    rw [show 8 * (n + 1) = 8 + 8 * n by omega] at ht h
    unfold relrLoop
    rw [readUserU64_eq fun j hj => ht j (by omega)]
    simp only [table, expand] at hw h ⊢
    generalize wordAt u bytes (va + o) = e at hw h ⊢
    -- the words of this entry, then those of the rest of the table
    have hrest : ∀ l whereVa', (∀ a ∈ l ++ expand bias whereVa' (table u bytes (va + o + 8) n),
        Mapped u true a 8 ∧ Apart u a (va + o) (8 + 8 * n)) →
        relrLoop u bias va n (o + 8) whereVa' true (addBias u bias l bytes) =
        (0, addBias u bias (l ++ expand bias whereVa' (table u bytes (va + o + 8) n)) bytes) := by
      intro l whereVa' hl
      have htable : table u (addBias u bias l bytes) (va + o + 8) n =
          table u bytes (va + o + 8) n := table_congr fun k hk =>
        addBias_of_notMem fun a ha => (hl a (mem_append_left _ ha)).2.drop k hk
      rw [show addBias u bias (l ++ _) bytes = _ from foldl_append, ← htable, hnext]
      refine ih (.inl rfl) (hnext ▸ ht.drop) fun a ha => ?_
      rw [← hnext, htable] at ha
      obtain ⟨hm, hp⟩ := hl a (mem_append_right _ ha)
      exact ⟨hm, hnext ▸ hp.drop⟩
    cases hodd : e.getLsbD 0 with
    | false =>
      rw [hodd, if_neg Bool.false_ne_true] at h
      rw [if_pos (and_one_eq_zero.mpr hodd), relocate_eq (h _ mem_cons_self).1]
      exact hrest [bias + e] _ h
    | true =>
      rw [hodd, if_pos rfl] at h
      have hbits : relrBits u bias whereVa 64 0 e bytes =
          (0, addBias u bias (bitWords whereVa e) bytes) :=
        relrBits_eq (i := 0) le_rfl fun a ha => (h a (mem_append_left _ ha)).1
      have hhave : haveWhere = true := hw.resolve_right fun hno => hno ⟨e, rfl, hodd⟩
      rw [if_neg fun hz => Bool.false_ne_true ((and_one_eq_zero.mp hz).symm.trans hodd), hhave,
        if_neg (by simp), hbits]
      exact hrest (bitWords whereVa e) _ h

/-- **Relocation.** A table in mapped memory that begins with a bitmap is refused. For any other one,
apart from the words it relocates, the load bias is added to the words of its expansion, and nothing
else changes. -/
theorem applyDtRelr_expands (u : UserSpace P) (bias relrVa : BitVec 64) (n : ℕ) (bytes : Bytes)
    (ht : Mapped u false relrVa (8 * n))
    (h : ¬ FirstOdd (table u bytes relrVa n) →
      ∀ a ∈ expand bias 0 (table u bytes relrVa n), Mapped u true a 8 ∧ Apart u a relrVa (8 * n)) :
    ((applyDtRelr u bias relrVa (8 * n) bytes).1 = -eNOEXEC ↔ FirstOdd (table u bytes relrVa n)) ∧
    (¬ FirstOdd (table u bytes relrVa n) → applyDtRelr u bias relrVa (8 * n) bytes =
      (0, addBias u bias (expand bias 0 (table u bytes relrVa n)) bytes)) := by
  have hcount : (8 * n + 7) / 8 = n := by omega
  have hzero : relrVa + ((0 : ℕ) : BitVec 64) = relrVa := by simp
  have hok : ¬ FirstOdd (table u bytes relrVa n) → applyDtRelr u bias relrVa (8 * n) bytes =
      (0, addBias u bias (expand bias 0 (table u bytes relrVa n)) bytes) := by
    intro hodd
    rw [applyDtRelr, hcount]
    conv_rhs => rw [← hzero]
    apply relrLoop_eq <;> rw [hzero]
    exacts [.inr hodd, ht, h hodd]
  refine ⟨⟨fun hret => ?_, fun ⟨e, he, hbit⟩ => ?_⟩, hok⟩
  · by_contra hodd
    rw [hok hodd] at hret
    exact absurd hret (show (0 : ℤ) ≠ -eNOEXEC by decide)
  cases n with
  | zero => simp [table] at he
  | succ n =>
    obtain rfl : wordAt u bytes relrVa = e := by simpa [table] using he
    rw [applyDtRelr, hcount, relrLoop, hzero, readUserU64_eq fun j hj => ht j (by omega)]
    simp only
    rw [if_neg fun hz => Bool.false_ne_true ((and_one_eq_zero.mp hz).symm.trans hbit), if_pos trivial]

def onePage (flags : ℕ) (debug : Bool) : UserSpace PmmPool :=
  ⟨1, ⟨smallPool, fun f i => if i = 0 then .ofNat 64 ((f + 1) * 4096 + flags) else 0⟩, debug⟩

lemma apart_iff : Apart u a va n ↔ ∀ x ∈ places u va n, x ∉ places u a 8 := by
  simp [Apart, places]

/-- Two words: an address, and a bitmap for the word behind it. -/
theorem applyDtRelr_small : let bytes : Bytes := update (fun _ => 0) 0x5108 3
    table (onePage 7 true) bytes 0x100 2 = [0, 3] ∧ applyDtRelr (onePage 7 true) 0x200 0x100 (8 * 2) bytes =
      (0, addBias (onePage 7 true) 0x200 [0x200, 0x208] bytes) := by
  intro bytes
  have htable : table (onePage 7 true) bytes 0x100 2 = [0, 3] := by decide +kernel
  have hexp : expand 0x200 0 (table (onePage 7 true) bytes 0x100 2) = [0x200, 0x208] := by
    rw [htable]
    decide
  have hgood : ∀ a ∈ expand 0x200 0 (table (onePage 7 true) bytes 0x100 2),
      Mapped (onePage 7 true) true a 8 ∧ Apart (onePage 7 true) a 0x100 (8 * 2) := by
    have h1 : places (onePage 7 true) 0x100 (8 * 2) = range' 0x5100 16 := by decide +kernel
    have h2 : places (onePage 7 true) 0x200 8 = range' 0x5200 8 := by decide +kernel
    have h3 : places (onePage 7 true) 0x208 8 = range' 0x5208 8 := by decide +kernel
    rw [hexp, forall_mem_cons, forall_mem_singleton, apart_iff, apart_iff, h1, h2, h3]
    refine ⟨⟨?_, by decide⟩, ?_, by decide⟩
    · unfold Mapped; decide +kernel
    · unfold Mapped; decide +kernel
  have hrun := applyDtRelr_expands (onePage 7 true) 0x200 0x100 2 bytes (by unfold Mapped; decide +kernel) fun _ => hgood
  rw [hexp] at hrun
  exact ⟨htable, hrun.2 (by rw [htable]; simp [FirstOdd])⟩

/-- In a mapped page that cannot be written, a table is refused although it does not begin with a bitmap
and the word that it relocates lies elsewhere. -/
theorem relr_refuses_readonly : table (onePage 5 true) (fun _ => 0) 0x100 1 = [0] ∧
      (∀ a : Fin 8, resolve (onePage 5 true) (0x100 + a.1) ≠ 0 ∧ resolve (onePage 5 true) (0x200 + a.1) ≠ 0) ∧
      Apart (onePage 5 true) 0x200 0x100 (8 * 1) ∧
      (applyDtRelr (onePage 5 true) 0x200 0x100 (8 * 1) fun _ => 0).1 = -eFAULT := by
  unfold Apart
  decide +kernel

end Obelisk.Relr
