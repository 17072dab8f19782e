import Obelisk.Proc.Slots
import Obelisk.Proc.Space

/-!
# References to open files

`f_count` of a file against the descriptor slots that refer to it, each table counted once.
-/

namespace Obelisk

open KLib Option Finmap Files Procs FdTable

variable {o : FdTable} {a : ForkAns}

def usesTable (t : ℕ) (x : Process) : ℕ := if x.files = t then 1 else 0

lemma usesTable_self {t : ℕ} {x : Process} (h : x.files = t) : usesTable t x = 1 := if_pos h

lemma usesTable_ne {t : ℕ} {x : Process} (h : x.files ≠ t) : usesTable t x = 0 := if_neg h

lemma usesTable_children (t : ℕ) (x : Process) (l : List ℕ) :
    usesTable t { x with children := l } = usesTable t x := rfl

/-- The reference count of a descriptor table counts its users. -/
structure TableFits (P : Procs) (t : ℕ) (T : FdTable) : Prop where
  count : T.refcount = total P.table (usesTable t)
  ne_zero : t ≠ 0
  maxFds : T.maxFds = procMaxFds
  nextFd : T.nextFd ≤ procMaxFds

/-- Every process has a descriptor table, and every table counts its processes. -/
structure TableOk (P : Procs) (tables : ObjHeap FdTable) : Prop where
  live : ∀ p x, P.table.lookup p = some x → x.files ∈ tables
  fits : ∀ {t T}, tables.lookup t = some T → TableFits P t T

def FileOk (s : Files) : Prop :=
  ∀ f, f ≠ 0 → s.count.lookup f = held (total s.tables (FdTable.slots f))

section Calls

variable {P : Procs} {s : Files} {t i f flags : ℕ} {T T' : FdTable} {g : FdTable → FdTable}

lemma TableOk.setTable {tables : ObjHeap FdTable} (h : TableOk P tables)
    (ht : tables.lookup t = some T) (hr : T'.refcount = T.refcount) (hm : T'.maxFds = T.maxFds)
    (hn : T'.nextFd ≤ procMaxFds) : TableOk P (tables.insert t T') := by
  refine ⟨fun p x hp => mem_insert.mpr (.inr (h.live p x hp)), fun hb => ?_⟩
  obtain ⟨rfl, rfl⟩ | ⟨-, hb⟩ := lookup_insert_cases hb
  · obtain ⟨hc, h0, hmax, -⟩ := h.fits ht
    exact ⟨hr.trans hc, h0, hm.trans hmax, hn⟩
  · exact h.fits hb

lemma Files.upd_tables (ht : s.tables.lookup t = some T) :
    (s.upd t g).tables = s.tables.insert t (g T) := modify_some ht

section

variable (h : FileOk s) (ht : s.tables.lookup t = some T)
include h ht

lemma FileOk.upd (hg : ∀ f, (g T).slots f = T.slots f) : FileOk (s.upd t g) := by
  intro f hf
  have htot := total_insert (v := g T) (w := slots f) ht
  rw [upd_tables ht]
  rw [hg f] at htot
  rw [show total (s.tables.insert t (g T)) (slots f) = total s.tables (slots f) by
    omega]
  exact h f hf

lemma FileOk.clear (hi : i < T.maxFds) (hfile : (T.fds i).file = f)
    (hg : ∀ f, (g T).slots f = (T.setSlot i ⟨0, 0⟩).slots f) : FileOk ((s.upd t g).putFile f) := by
  intro f' hf'
  have htot := total_insert (v := g T) (w := slots f') ht
  have hslot := slots_setSlot (f := f') (e := ⟨0, 0⟩) hi
  rw [hg f'] at htot
  rw [if_neg (Ne.symm hf')] at hslot
  rw [putFile_tables, upd_tables ht]
  by_cases hff : f' = f
  · rw [if_pos (hfile.trans hff.symm)] at hslot
    have hpos : 0 < total s.tables (slots f') :=
      lt_of_lt_of_le (slots_pos hi (hfile.trans hff.symm)) (le_total ht)
    have hcount := putFile_count (s := s.upd t g) hf' hpos (h f' hf')
    rw [hff] at hcount hslot htot ⊢
    rw [hcount]
    congr 1
    omega
  rw [if_neg fun h => hff (h.symm.trans hfile)] at hslot
  rw [putFile_count_ne hff]
  refine (h f' hf').trans ?_
  congr 1
  omega

omit h in
/-- A free slot gets the file `f`. -/
theorem total_put (hi : i < T.maxFds) (hfree : (T.fds i).file = 0)
    (hg : ∀ f', (g T).slots f' = (T.setSlot i ⟨f, flags⟩).slots f') {f' : ℕ} (hf' : f' ≠ 0) :
    total (s.tables.insert t (g T)) (slots f') = total s.tables (slots f') + if f = f' then 1 else 0 := by
  have htot := total_insert (v := g T) (w := slots f') ht
  have hslot := slots_setSlot (f := f') (e := ⟨f, flags⟩) hi
  rw [hg f'] at htot
  rw [hfree, if_neg (Ne.symm hf')] at hslot
  dsimp only at hslot
  omega

lemma FileOk.add (hi : i < T.maxFds) (hfree : (T.fds i).file = 0) (hf : f ≠ 0) (hpos : 0 < total s.tables (slots f))
    (hg : ∀ f', (g T).slots f' = (T.setSlot i ⟨f, flags⟩).slots f') :
    FileOk ((s.upd t g).getFile f) := by
  intro f' hf'
  rw [getFile_tables, upd_tables ht, total_put ht hi hfree hg hf']
  by_cases hff : f = f'
  · rw [← hff, if_pos rfl]
    exact getFile_count (s := s.upd t g) hf hpos (h f hf)
  rw [if_neg hff, getFile_count_ne (Ne.symm hff)]
  exact h f' hf'

lemma FileOk.new (hi : i < T.maxFds) (hfree : (T.fds i).file = 0) (hf : f ≠ 0) (hnew : f ∉ s.count)
    (hg : ∀ f', (g T).slots f' = (T.setSlot i ⟨f, flags⟩).slots f') :
    FileOk (Files.upd t g { s with count := s.count.insert f 1 }) := by
  intro f' hf'
  rw [upd_tables (s := { s with count := s.count.insert f 1 }) ht, total_put ht hi hfree hg hf', Files.upd]
  dsimp only
  rw [lookup_insert_eq]
  by_cases hff : f = f'
  · have hzero : total s.tables (slots f) = 0 := by
      rw [← held_inj, held_zero, ← h f hf]
      exact lookup_eq_none.mpr hnew
    rw [← hff, if_pos rfl, if_pos rfl, hzero]
    rfl
  rw [if_neg hff, if_neg (Ne.symm hff)]
  exact h f' hf'

end

/-! ## The descriptor calls -/

def KeepsFiles (P : Procs) (s s' : Files) : Prop :=
  TableOk P s'.tables ∧ (FileOk s → FileOk s')

section

variable (h : TableOk P s.tables)
include h

lemma KeepsFiles.refl : KeepsFiles P s s := ⟨h, id⟩

lemma fdAlloc_cases (ht : s.tables.lookup t = some T) (hf : f ≠ 0) (flags : ℕ) :
    (∃ i, T.freeSlot = some i ∧ i < T.maxFds ∧ (T.fds i).file = 0 ∧ s.fdAlloc t f flags =
      ((i : ℤ), s.upd t fun T => { T.setSlot i ⟨f, flags⟩ with nextFd := i + 1 })) ∨
    T.freeSlot = none ∧
      s.fdAlloc t f flags = (eMfile, s.upd t fun T => { T with nextFd := max T.nextFd 3 }) := by
  have ht0 := (h.fits ht).ne_zero
  have hmax := (h.fits ht).maxFds
  have hnext := (h.fits ht).nextFd
  have hge : 3 ≤ T.maxFds := by
    rw [hmax]
    decide
  rw [Files.fdAlloc, if_neg (not_or.mpr ⟨ht0, hf⟩), get_of_lookup ht]
  cases hfree : T.freeSlot with
  | none => exact .inr ⟨rfl, rfl⟩
  | some i =>
    obtain ⟨_, hi, hzero⟩ := freeSlot_spec hfree (by omega) hge
    exact .inl ⟨i, rfl, hi, hzero, rfl⟩

lemma fdAlloc_none (ht : s.tables.lookup t = some T) :
    KeepsFiles P s (s.upd t fun T => { T with nextFd := max T.nextFd 3 }) := by
  have hnext := (h.fits ht).nextFd
  refine ⟨?_, fun hF => hF.upd ht fun _ => rfl⟩
  rw [upd_tables ht]
  exact h.setTable ht rfl rfl (max_le hnext (by decide))

lemma TableOk.setSlot (ht : s.tables.lookup t = some T) (hi : i < T.maxFds) (e : FdEntry) :
    TableOk P (s.tables.insert t { T.setSlot i e with nextFd := i + 1 }) := by
  have hmax := (h.fits ht).maxFds
  exact h.setTable ht rfl rfl (by dsimp only; omega)

lemma sysOpen_keeps (ht : s.tables.lookup t = some T)
    (ans : Except ℤ ℕ) : KeepsFiles P s (s.sysOpen t flags ans).2 := by
  cases ans with
  | error e => exact KeepsFiles.refl h
  | ok f =>
    by_cases hf : f = 0 ∨ f ∈ s.count
    · rw [Files.sysOpen, Files.vfsOpen, if_pos hf]
      exact KeepsFiles.refl h
    obtain ⟨hf0, hnew⟩ := not_or.mp hf
    rw [Files.sysOpen, Files.vfsOpen, if_neg hf]
    dsimp only
    -- the file is there before the slot is: `s1` is the state between
    generalize hs1 : ({ s with count := s.count.insert f 1 } : Files) = s1
    have htab : s1.tables = s.tables := by rw [← hs1]
    have ht1 : s1.tables.lookup t = some T := by rw [htab, ht]
    obtain ⟨i, _, hi, hzero, hal⟩ | ⟨_, hal⟩ := fdAlloc_cases (s := s1)
      (htab ▸ h) ht1 hf0 (if hasBit flags oCloexec then oCloexec else 0)
    · have hnn : ¬ (i : ℤ) < 0 := by omega
      rw [hal, if_neg hnn]
      refine ⟨?_, fun hF => ?_⟩
      · rw [upd_tables ht1, htab]
        exact h.setSlot ht hi _
      rw [← hs1]
      exact hF.new ht hi hzero hf0 hnew fun _ => rfl
    have hneg : eMfile < 0 := by decide
    rw [hal, if_pos hneg]
    have hback : (Files.upd t (fun T => { T with nextFd := max T.nextFd 3 }) s1).vfsClose f =
        s.upd t fun T => { T with nextFd := max T.nextFd 3 } := by
      rw [← hs1, Files.vfsClose, Files.upd]
      dsimp only
      rw [erase_insert_new hnew]
      rfl
    rw [hback]
    exact fdAlloc_none h ht

end

lemma fdGet_spec (ht : s.tables.lookup t = some T) {fd : ℤ} (h : s.fdGet t fd ≠ 0) :
    fd.toNat < T.maxFds ∧ (T.fds fd.toNat).file = s.fdGet t fd := by
  rw [Files.fdGet, get_of_lookup ht] at h ⊢
  split_ifs at h ⊢ with hrange
  · exact ⟨by omega, rfl⟩
  · exact absurd rfl h

lemma sysClose_keeps (h : TableOk P s.tables) (ht : s.tables.lookup t = some T) (fd : ℤ) :
    KeepsFiles P s (s.sysClose t fd).2 := by
  rw [Files.sysClose]
  split_ifs with h0
  · exact KeepsFiles.refl h
  obtain ⟨hlt, hfile⟩ := fdGet_spec ht h0
  refine ⟨?_, fun hF => hF.clear ht hlt hfile fun _ => rfl⟩
  rw [putFile_tables, upd_tables ht]
  exact h.setTable ht rfl rfl
    ((lowerNext_le (T := T.setSlot fd.toNat ⟨0, 0⟩) _).trans (h.fits ht).nextFd)

lemma sysDup_keeps (h : TableOk P s.tables) (ht : s.tables.lookup t = some T) (fd : ℤ) :
    KeepsFiles P s (s.sysDup t fd).2 := by
  rw [Files.sysDup]
  split_ifs with h0
  · exact KeepsFiles.refl h
  obtain ⟨i, _, hi, hzero, hal⟩ | ⟨_, hal⟩ :=
    fdAlloc_cases h ht h0 ((s.get t).fds fd.toNat).flags
  · have hnn : ¬ (i : ℤ) < 0 := by omega
    obtain ⟨hlt, hfile⟩ := fdGet_spec ht h0
    have hpos : 0 < total s.tables (slots (s.fdGet t fd)) :=
      lt_of_lt_of_le (slots_pos hlt hfile) (le_total ht)
    rw [hal, if_neg hnn]
    refine ⟨?_, fun hF => hF.add ht hi hzero h0 hpos fun _ => rfl⟩
    rw [getFile_tables, upd_tables ht]
    exact h.setSlot ht hi _
  have hneg : eMfile < 0 := by decide
  rw [hal, if_pos hneg]
  exact fdAlloc_none h ht

lemma KeepsFiles.trans {s' s'' : Files} (h : KeepsFiles P s s') (h' : KeepsFiles P s' s'') :
    KeepsFiles P s s'' := ⟨h'.1, fun hF => h'.2 (h.2 hF)⟩

lemma sysDup2_target (h : TableOk P s.tables) (ht : s.tables.lookup t = some T) {newfd : ℤ}
    (hnew : 0 ≤ newfd ∧ newfd < T.maxFds) :
    let s1 := if s.fdGet t newfd = 0 then s
      else (s.upd t (·.setSlot newfd.toNat ⟨0, 0⟩)).putFile (s.fdGet t newfd)
    KeepsFiles P s s1 ∧ ∃ T1, s1.tables.lookup t = some T1 ∧ T1.maxFds = T.maxFds ∧
      (T1.fds newfd.toNat).file = 0 ∧ ∀ i ≠ newfd.toNat, T1.fds i = T.fds i := by
  dsimp only
  split_ifs with h0
  · refine ⟨KeepsFiles.refl h, T, ht, rfl, ?_, fun _ _ => rfl⟩
    rw [Files.fdGet, get_of_lookup ht, if_pos hnew] at h0
    exact h0
  obtain ⟨hlt, hfile⟩ := fdGet_spec ht h0
  refine ⟨⟨?_, fun hF => hF.clear ht hlt hfile fun _ => rfl⟩, T.setSlot newfd.toNat ⟨0, 0⟩, ?_, rfl, ?_, ?_⟩
  · rw [putFile_tables, upd_tables ht]
    exact h.setTable ht rfl rfl (h.fits ht).nextFd
  · rw [putFile_tables, upd_tables ht, lookup_insert]
  · rw [setSlot_fds_self]
  · exact fun i hi => setSlot_fds_ne hi

lemma sysDup2_keeps (h : TableOk P s.tables) (ht : s.tables.lookup t = some T)
    (oldfd newfd : ℤ) : KeepsFiles P s (s.sysDup2 t oldfd newfd).2 := by
  rw [Files.sysDup2]
  by_cases hbad : ¬ (0 ≤ newfd ∧ newfd < (s.get t).maxFds) ∨ s.fdGet t oldfd = 0
  · rw [if_pos hbad]
    exact KeepsFiles.refl h
  rw [if_neg hbad]
  obtain ⟨hnew, h0⟩ := not_or.mp hbad
  rw [not_not, get_of_lookup ht] at hnew
  by_cases hsame : oldfd = newfd
  · rw [if_pos hsame]
    exact KeepsFiles.refl h
  rw [if_neg hsame]
  obtain ⟨hlt, hfile⟩ := fdGet_spec ht h0
  have hold : 0 ≤ oldfd := by
    by_contra hneg
    exact h0 (if_neg fun hr => hneg hr.1)
  have hij : oldfd.toNat ≠ newfd.toNat := by omega
  obtain ⟨hkeep, T1, ht1, hmax1, hfree1, hrest1⟩ := sysDup2_target h ht hnew
  dsimp only at hkeep ht1 ⊢
  generalize (if s.fdGet t newfd = 0 then s
    else (s.upd t (·.setSlot newfd.toNat ⟨0, 0⟩)).putFile (s.fdGet t newfd)) = s1 at hkeep ht1 ⊢
  have hcomm : (s1.getFile (s.fdGet t oldfd)).upd t (fun T =>
      T.setSlot newfd.toNat ⟨s.fdGet t oldfd, (T.fds oldfd.toNat).flags⟩) =
      (s1.upd t fun T => T.setSlot newfd.toNat ⟨s.fdGet t oldfd, (T.fds oldfd.toNat).flags⟩).getFile
        (s.fdGet t oldfd) := by
    rw [Files.getFile, Files.getFile, if_neg h0, if_neg h0]
    rfl
  have hpos : 0 < total s1.tables (slots (s.fdGet t oldfd)) := by
    have hslot : (T1.fds oldfd.toNat).file = s.fdGet t oldfd := by rw [hrest1 _ hij, hfile]
    exact lt_of_lt_of_le (slots_pos (hmax1 ▸ hlt) hslot) (le_total ht1)
  refine hkeep.trans ?_
  rw [hcomm]
  refine ⟨?_, fun hF => hF.add ht1 (by omega) hfree1 h0 hpos fun _ => rfl⟩
  rw [getFile_tables, upd_tables ht1]
  exact hkeep.1.setTable ht1 rfl rfl (hkeep.1.fits ht1).nextFd

def cloned (o : FdTable) (a : ℕ) (s : Files) : Files :=
  (Files.cloneLoop o a o.maxFds { s with tables := s.tables.insert a .fresh }).upd a
    ({ · with nextFd := o.nextFd })

lemma copyFiles_cases (t flags a : ℕ) (s : Files) : s.copyFiles t flags a = (0, s) ∨
    (t ≠ 0 ∧ s.copyFiles t flags a = (t, s.upd t fun T => { T with refcount := T.refcount + 1 })) ∨
    (a ≠ 0 ∧ a ∉ s.tables ∧ s.copyFiles t flags a = (a, cloned (s.get t) a s)) := by
  rw [Files.copyFiles]
  split_ifs with h0 hflag
  · exact .inl rfl
  · exact .inr (.inl ⟨h0, rfl⟩)
  rw [Files.fdTableClone]
  obtain hc | ⟨ha0, ha, hc⟩ := s.fdTableCreate_cases a
  · rw [hc]
    exact .inl rfl
  rw [hc]
  refine .inr (.inr ⟨ha0, ha, ?_⟩)
  dsimp only
  split
  · next h => exact absurd (Prod.mk.inj h).1 ha0
  · next b s' _ h =>
    cases h
    rfl

lemma cloned_tables (o : FdTable) (a : ℕ) (s : Files) : (cloned o a s).tables =
    s.tables.insert a { Files.copied o o.maxFds with nextFd := o.nextFd } := by
  have hloop := cloneLoop_tables (o := o) (t := a)
    (s := { s with tables := s.tables.insert a .fresh }) o.maxFds (lookup_insert _)
  dsimp only at hloop
  rw [insert_insert] at hloop
  rw [cloned, Files.upd]
  dsimp only
  rw [hloop, modify_some (lookup_insert _), insert_insert]

lemma copied_slots (hmax : o.maxFds = procMaxFds) {f : ℕ} :
    slots f { Files.copied o o.maxFds with nextFd := o.nextFd } = o.slots f := by
  rw [slots, slots, show ({ Files.copied o o.maxFds with nextFd := o.nextFd } :
    FdTable).maxFds = o.maxFds from hmax.symm]
  apply slotsBelow_congr
  intro i hi
  dsimp only [Files.copied]
  split_ifs with h
  · rfl
  by_contra hne
  exact h ⟨hi, fun h0 => hne h0.symm⟩

lemma FileOk.clone (h : FileOk s) (ht : s.tables.lookup t = some o)
    (hmax : o.maxFds = procMaxFds) {a : ℕ} (ha : a ∉ s.tables) : FileOk (cloned o a s) := by
  intro f hf
  have hle : o.slots f ≤ total s.tables (slots f) := le_total ht
  have hcount := cloneLoop_count (o := o) (t := a)
    (s := { s with tables := s.tables.insert a .fresh }) hf (h f hf) o.maxFds
    fun hpos => lt_of_lt_of_le hpos hle
  rw [cloned_tables, total_insert_new ha, copied_slots hmax]
  exact hcount

section

variable (ht0 : t ≠ 0) (ht : s.tables.lookup t = some T)
include ht0 ht

lemma fdTableFree_eq (hr : T.refcount = 1) : s.fdTableFree t = { Files.freeLoop T t T.maxFds s with
      tables := (Files.freeLoop T t T.maxFds s).tables.erase t } := by
  rw [Files.fdTableFree, get_of_lookup ht, if_neg ht0, hr]
  rfl

lemma fdTableFree_last (hr : T.refcount = 1) :
    (s.fdTableFree t).tables = s.tables.erase t ∧ (FileOk s → FileOk (s.fdTableFree t)) := by
  rw [fdTableFree_eq ht0 ht hr]
  refine ⟨freeLoop_tables _, fun h f hf => ?_⟩
  have hle : T.slots f ≤ total s.tables (slots f) := le_total ht
  have herase := total_erase (w := slots f) ht
  dsimp only
  rw [freeLoop_tables, freeLoop_count hf (h f hf) _ hle]
  congr 1
  have hslots : T.slots f = T.slotsBelow T.maxFds f := rfl
  omega

lemma fdTableFree_more (hr : T.refcount ≠ 1) :
    s.fdTableFree t = s.upd t fun T => { T with refcount := T.refcount - 1 } := by
  rw [Files.fdTableFree, get_of_lookup ht, if_neg ht0, if_neg (by omega)]

end

lemma FileOk.free (h : FileOk s) (ht0 : t ≠ 0) (ht : s.tables.lookup t = some T) :
    FileOk (s.fdTableFree t) := by
  by_cases hr : T.refcount = 1
  · exact (fdTableFree_last ht0 ht hr).2 h
  rw [fdTableFree_more ht0 ht hr]
  exact h.upd ht fun _ => rfl

end Calls

/-! ## Processes and their tables -/

section Processes

variable {k k' : Kern} {P P' : Procs} {tables : ObjHeap FdTable} {p t flags c z : ℕ} {x y : Process} {T : FdTable}

section

variable (h : TableOk P tables)
include h

lemma TableOk.of_table (htab : P'.table = P.table) : TableOk P' tables :=
  ⟨fun p x hp => h.live p x (htab ▸ hp), fun ht => { h.fits ht with count := htab ▸ (h.fits ht).count }⟩

lemma TableOk.updProc {f : Process → Process}
    (hf : ∀ x, (f x).files = x.files) : TableOk (P.upd p f) tables := by
  refine ⟨fun q w hq => ?_, fun {b B} hb => { h.fits hb with count := ?_ }⟩
  · rw [Procs.upd, lookup_modify] at hq
    split_ifs at hq with hqp
    · obtain ⟨w', hw', rfl⟩ := map_eq_some_iff.mp hq
      exact hf w' ▸ h.live p w' hw'
    · exact h.live q w hq
  have htot : total (P.upd p f).table (usesTable b) = total P.table (usesTable b) :=
    upd_total_eq fun x => by rw [usesTable, usesTable, hf]
  rw [(h.fits hb).count, htot]

lemma TableOk.total_eq_zero (ht : t ∉ tables) : total P.table (usesTable t) = 0 := by
  rw [total_eq_zero_iff]
  intro p x hp
  apply usesTable_ne
  rintro rfl
  exact ht (h.live p x hp)

lemma TableOk.exists_table (hp : P.table.lookup p = some x) :
    ∃ T, tables.lookup x.files = some T ∧ 1 ≤ T.refcount := by
  obtain ⟨T, hT⟩ := mem_iff.mp (h.live p x hp)
  have hcount := (h.fits hT).count
  have hle : usesTable x.files x ≤ total P.table (usesTable x.files) := le_total hp
  rw [usesTable_self rfl] at hle
  exact ⟨T, hT, by omega⟩

lemma TableOk.spawn (hs : P.Spawn P' c x)
    (h0 : x.files ≠ 0) (hmax : T.maxFds = procMaxFds) (hnext : T.nextFd ≤ procMaxFds)
    (hr : T.refcount = total P.table (usesTable x.files) + 1) :
    TableOk P' (tables.insert x.files T) := by
  have htot : ∀ b, total P'.table (usesTable b) = total P.table (usesTable b) + usesTable b x :=
    fun b => hs.total (usesTable_children b)
  refine ⟨fun q w hq => ?_, fun {b B} hb => ?_⟩
  · rw [mem_insert]
    obtain ⟨_, rfl⟩ | ⟨_, w', hw', rfl⟩ := hs.cases hq
    · exact .inl rfl
    right
    have := h.live q w' hw'
    split_ifs <;> exact this
  obtain ⟨rfl, rfl⟩ | ⟨hbx, hb⟩ := lookup_insert_cases hb
  · exact ⟨by rw [htot, usesTable_self rfl]; exact hr, h0, hmax, hnext⟩
  · exact { h.fits hb with count := by rw [htot, usesTable_ne hbx.symm]; exact (h.fits hb).count }

end

section

variable (h : TableOk k.procs k.io.tables) (hp : k.procs.table.lookup p = some y)
include h hp

lemma ForkAdds.files (hf : ForkAdds y flags a k k' c x) :
    TableOk k'.procs k'.io.tables ∧ (FileOk k.io → FileOk k'.io) := by
  obtain ⟨hx0, hcopy⟩ := hf.io
  obtain ⟨T, hT, _⟩ := h.exists_table hp
  have hmax := (h.fits hT).maxFds
  have hnext := (h.fits hT).nextFd
  obtain hcp | ⟨hy0, hcp⟩ | ⟨ha0, ha, hcp⟩ := copyFiles_cases y.files flags a.files k.io
  · rw [hcp] at hcopy
    exact absurd (Prod.mk.inj hcopy).1.symm hx0
  · rw [hcp] at hcopy
    obtain ⟨hxf, hio⟩ := Prod.mk.inj hcopy
    rw [← hio]
    refine ⟨?_, fun hF => hF.upd hT fun _ => rfl⟩
    rw [upd_tables hT, hxf]
    refine h.spawn hf.spawn hx0 hmax hnext ?_
    rw [← hxf, ← (h.fits hT).count]
  rw [hcp, get_of_lookup hT] at hcopy
  obtain ⟨hxf, hio⟩ := Prod.mk.inj hcopy
  rw [← hio]
  refine ⟨?_, fun hF => hF.clone hT hmax ha⟩
  rw [cloned_tables, hxf]
  refine h.spawn hf.spawn hx0 rfl hnext ?_
  rw [← hxf, h.total_eq_zero ha]
  rfl

lemma ForkFails.io_tables (hf : ForkFails y flags a k k') :
    k'.io.tables = k.io.tables ∧ (FileOk k.io → FileOk k'.io) := by
  obtain ⟨T, hT, hT1⟩ := h.exists_table hp
  have hmax := (h.fits hT).maxFds
  obtain hio | ⟨r, hr, hio⟩ := hf.io
  · rw [hio]
    exact ⟨rfl, id⟩
  obtain hcp | ⟨hy0, hcp⟩ | ⟨ha0, ha, hcp⟩ := copyFiles_cases y.files flags a.files k.io
  · rw [hio, hr, hcp]
    exact ⟨rfl, id⟩
  · rw [hio, hr, hcp]
    dsimp only
    have hup : (k.io.upd y.files fun T => { T with refcount := T.refcount + 1 }).tables.lookup
        y.files = some { T with refcount := T.refcount + 1 } := by
      rw [upd_tables hT, lookup_insert]
    refine ⟨?_, fun hF => (hF.upd hT fun _ => rfl).free hy0 hup⟩
    rw [fdTableFree_more hy0 hup (by dsimp only; omega), upd_tables hup, upd_tables hT, insert_insert]
    apply insert_self
    rw [hT, Int.add_sub_cancel]
  rw [hio, hr, hcp, get_of_lookup hT]
  dsimp only
  have hnew : (cloned T a.files k.io).tables.lookup a.files =
      some { Files.copied T T.maxFds with nextFd := T.nextFd } := by
    rw [cloned_tables, lookup_insert]
  obtain ⟨hfree, hfile⟩ := fdTableFree_last ha0 hnew rfl
  refine ⟨?_, fun hF => hfile (hF.clone hT hmax ha)⟩
  rw [hfree, cloned_tables, erase_insert_new ha]

lemma ForkFails.files (hf : ForkFails y flags a k k') :
    TableOk k'.procs k'.io.tables ∧ (FileOk k.io → FileOk k'.io) := by
  obtain ⟨n, _, hprocs⟩ := hf.procs
  have htab : k'.procs.table = k.procs.table := by
    rw [hprocs]
    rfl
  obtain ⟨ht, hF⟩ := hf.io_tables h hp
  exact ⟨ht ▸ h.of_table htab, hF⟩

end

lemma processDestroy_files (h : TableOk k.procs k.io.tables)
    (hz : k.procs.table.lookup z = some x) (hker : x.kernel = false) :
    TableOk (processDestroy z k).procs (processDestroy z k).io.tables ∧
      (FileOk k.io → FileOk (processDestroy z k).io) := by
  have htot : ∀ b, total (k.procs.unlink z).table (usesTable b) + usesTable b x =
      total k.procs.table (usesTable b) := fun b => unlink_total (usesTable_children b) hz
  obtain ⟨T, hT, hT1⟩ := h.exists_table hz
  have ht0 := (h.fits hT).ne_zero
  have hcount := (h.fits hT).count
  have hself := htot x.files
  rw [usesTable_self rfl] at hself
  have hlive : ∀ q w, (k.procs.unlink z).table.lookup q = some w → w.files ∈ k.io.tables := by
    intro q w hq
    obtain ⟨_, w', hw', rfl⟩ := unlink_cases hz hq
    have := h.live q w' hw'
    split_ifs <;> exact this
  have hother {b B} (hb : b ≠ x.files) (hB : k.io.tables.lookup b = some B) :
      TableFits (k.procs.unlink z) b B := by
    have h1 := htot b
    rw [usesTable_ne (Ne.symm hb)] at h1
    exact { h.fits hB with count := by rw [(h.fits hB).count, ← h1]; rfl }
  rw [processDestroy_eq hz hker]
  refine ⟨?_, fun hF => hF.free ht0 hT⟩
  dsimp only
  by_cases hr : T.refcount = 1
  · rw [(fdTableFree_last ht0 hT hr).1]
    have hzero : total (k.procs.unlink z).table (usesTable x.files) = 0 := by omega
    have hsub : ∀ {b B}, (k.io.tables.erase x.files).lookup b = some B →
        b ≠ x.files ∧ k.io.tables.lookup b = some B := by
      intro b B hb
      rw [lookup_erase_eq] at hb
      split_ifs at hb with hbx
      exact ⟨hbx, hb⟩
    refine ⟨fun q w hq => ?_, fun hb => hother (hsub hb).1 (hsub hb).2⟩
    rw [mem_erase]
    refine ⟨fun hwx => ?_, hlive q w hq⟩
    have := total_eq_zero_iff.mp hzero q w hq
    rw [usesTable_self hwx] at this
    cases this
  rw [fdTableFree_more ht0 hT hr, upd_tables hT]
  refine ⟨fun q w hq => mem_insert.mpr (.inr (hlive q w hq)), fun hb => ?_⟩
  obtain ⟨rfl, rfl⟩ | ⟨hbx, hB⟩ := lookup_insert_cases hb
  · exact { h.fits hT with count := by dsimp only; omega }
  · exact hother hbx hB

/-- A call to `do_execve` that succeeds finds no open descriptor from `3` on with `O_CLOEXEC`. -/
def NoSweep : KernOp → Kern → Prop
  | .execve p a ok, k =>
    k.procs.runnable p = true → ok = true → a ≠ 0 → a ∉ k.vm.refcount → ∀ i, 3 ≤ i → i < procMaxFds →
        hasBit ((k.io.get (k.procs.get p).files).fds i).flags oCloexec = true →
          ((k.io.get (k.procs.get p).files).fds i).file = 0
  | _, _ => True

lemma FileOk.upd_iff {s : Files} (h : FileOk s) (ht : s.tables.lookup t = some T) {g : FdTable → FdTable} :
    FileOk (s.upd t g) ↔ ∀ f, f ≠ 0 → (g T).slots f = T.slots f := by
  apply forall₂_congr
  intro f hf
  have htot := total_insert (v := g T) (w := slots f) ht
  rw [upd_tables ht]
  refine (Iff.of_eq (congrArg (· = _) (h f hf))).trans (held_inj.trans ?_)
  omega

lemma doExecve_tables (hk : k.Base) (h : TableOk k.procs k.io.tables)
    (hp : k.procs.table.lookup p = some y) (a : ℕ) (ok : Bool) :
    TableOk (doExecve p a ok k).2.procs (doExecve p a ok k).2.io.tables := by
  obtain ⟨_, he⟩ | ⟨_, _, _, he⟩ | ⟨_, _, _, he⟩ := doExecve_cases hk hp a ok
  · rw [he]
    exact h
  · rw [he]
    exact h
  obtain ⟨T, hT, _⟩ := h.exists_table hp
  have hkeep := sweep_keeps (T := T) T.maxFds
  rw [he]
  dsimp only
  rw [upd_tables hT]
  have hset : TableOk k.procs (k.io.tables.insert y.files T.closeOnExec) :=
    h.setTable hT hkeep.2.1 hkeep.1 (hkeep.2.2.trans (h.fits hT).nextFd)
  exact hset.updProc fun _ => rfl

lemma FileOk.execve_iff (h : FileOk k.io) (hk : k.Base) (hT : TableOk k.procs k.io.tables)
    (hrun : k.procs.runnable p = true) (a : ℕ) (ok : Bool) :
    FileOk (doExecve p a ok k).2.io ↔ NoSweep (.execve p a ok) k := by
  obtain ⟨y, hp, _⟩ := runnable_iff.mp hrun
  obtain ⟨T, ht, _⟩ := hT.exists_table hp
  have hmax := (hT.fits ht).maxFds
  obtain ⟨hused, he⟩ | ⟨_, _, hok, he⟩ | ⟨ha0, ha, hok, he⟩ := doExecve_cases hk hp a ok
  · rw [he]
    refine ⟨fun _ _ _ ha0 ha => ?_, fun _ => h⟩
    obtain h0 | h1 := hused
    · exact absurd h0 ha0
    · exact absurd h1 ha
  · rw [he]
    refine ⟨fun _ _ hok' => ?_, fun _ => h⟩
    rw [hok] at hok'
    cases hok'
  rw [he]
  dsimp only
  rw [h.upd_iff ht, slots_closeOnExec_iff, hmax, NoSweep, get_of_lookup hp, get_of_lookup ht]
  exact ⟨fun hs _ _ _ _ => hs, fun hs => hs hrun hok ha0 ha⟩

lemma onFiles_keeps (hp : k.procs.table.lookup p = some y) {f : ℕ → Files → ℤ × Files}
    (h : KeepsFiles k.procs k.io (f y.files k.io).2) :
    TableOk (k.onFiles p f).2.procs (k.onFiles p f).2.io.tables ∧
      (FileOk k.io → FileOk (k.onFiles p f).2.io) := by
  rw [Kern.onFiles, get_of_lookup hp]
  exact h

lemma files_step (hk : k.Base) (hT : TableOk k.procs k.io.tables) (op : KernOp) :
    TableOk (kernStep op k).2.procs (kernStep op k).2.io.tables ∧
      (FileOk k.io → (FileOk (kernStep op k).2.io ↔ NoSweep op k)) := by
  rw [kernStep]
  split_ifs with hrun
  · obtain ⟨y, hp, _⟩ := runnable_iff.mp hrun
    obtain ⟨T, ht, _⟩ := hT.exists_table hp
    cases op with
    | execve p a ok =>
      exact ⟨doExecve_tables hk hT hp a ok, fun hF => hF.execve_iff hk hT hrun a ok⟩
    | fork p flags a =>
      obtain hf | ⟨c, x, hf, -⟩ := doFork_cases hk hp flags a
      · have := hf.files hT hp
        exact ⟨this.1, fun hF => iff_of_true (this.2 hF) trivial⟩
      have := hf.files hT hp
      exact ⟨this.1, fun hF => iff_of_true (this.2 hF) trivial⟩
    | exit p code =>
      exact ⟨hT.updProc fun _ => rfl, fun hF => iff_of_true hF trivial⟩
    | wait p pid =>
      cases hz : k.procs.zombieChild p pid with
      | none =>
        simp only [KernOp.perform, doWait, hz]
        exact ⟨hT, fun hF => iff_of_true hF trivial⟩
      | some z =>
        obtain ⟨x, hx, hker, _⟩ := zombieChild_spec hk.tree hz
        have := processDestroy_files hT hx hker
        simp only [KernOp.perform, doWait, hz]
        exact ⟨this.1, fun hF => iff_of_true (this.2 hF) trivial⟩
    | openFile p flags ans =>
      have := onFiles_keeps (f := fun t => Files.sysOpen t flags ans) hp (sysOpen_keeps hT ht ans)
      exact ⟨this.1, fun hF => iff_of_true (this.2 hF) trivial⟩
    | closeFile p fd =>
      have := onFiles_keeps (f := fun t => Files.sysClose t fd) hp (sysClose_keeps hT ht fd)
      exact ⟨this.1, fun hF => iff_of_true (this.2 hF) trivial⟩
    | dup p fd =>
      have := onFiles_keeps (f := fun t => Files.sysDup t fd) hp (sysDup_keeps hT ht fd)
      exact ⟨this.1, fun hF => iff_of_true (this.2 hF) trivial⟩
    | dup2 p oldfd newfd =>
      have := onFiles_keeps (f := fun t => Files.sysDup2 t oldfd newfd) hp (sysDup2_keeps hT ht oldfd newfd)
      exact ⟨this.1, fun hF => iff_of_true (this.2 hF) trivial⟩
  refine ⟨hT, fun hF => iff_of_true hF ?_⟩
  cases op with
  | execve p a ok => exact fun hrun' => absurd hrun' hrun
  | _ => trivial

lemma fresh_slots {f : ℕ} (hf : f ≠ 0) : fresh.slots f = 0 := by
  rw [slots, slotsBelow]
  apply Finset.sum_eq_zero
  intro i _
  exact if_neg (Ne.symm hf)

lemma KernelAdds.filesOk (h : KernelAdds k k' c x) (hT : TableOk k.procs k.io.tables)
    (hF : FileOk k.io) : TableOk k'.procs k'.io.tables ∧ FileOk k'.io := by
  rw [h.io]
  refine ⟨hT.spawn h.spawn h.files.1 rfl (by decide) ?_, fun f hf => ?_⟩
  · rw [hT.total_eq_zero h.files.2]
    rfl
  dsimp only
  rw [total_insert_new h.files.2, fresh_slots hf]
  exact hF f hf

lemma processInit_files {a b : CreateAns} (h : processInit a b = some k) :
    TableOk k.procs k.io.tables ∧ FileOk k.io := by
  obtain ⟨i, x, k1, j, y, hx, _, hy⟩ := processInit_spec h
  have hT : TableOk Kern.empty.procs Kern.empty.io.tables := ⟨nofun, nofun⟩
  have hF : FileOk Kern.empty.io := by
    intro f _
    rw [show total Kern.empty.io.tables (slots f) = 0 from total_empty _]
    rfl
  obtain ⟨hT1, hF1⟩ := hx.filesOk hT hF
  exact hy.filesOk hT1 hF1

/-- **A file is open exactly as long as a descriptor refers to it**, and `f_count` is the number of
those descriptors, after every call of a run exactly if no `do_execve` that succeeds finds a
descriptor to close. -/
theorem file_run_refcount {a b : CreateAns} (hk : processInit a b = some k) (ops : List KernOp) :
    (∀ pre, pre <+: ops → FileOk (runOps kernStep pre k).2.io) ↔ Along kernStep NoSweep ops k := by
  obtain ⟨hT, hF⟩ := processInit_files hk
  have hstep : ∀ op (k : Kern), (k.Base ∧ TableOk k.procs k.io.tables) → ((kernStep op k).2.Base ∧
      TableOk (kernStep op k).2.procs (kernStep op k).2.io.tables) := fun op k h =>
    ⟨h.1.step op, (files_step h.1 h.2 op).1⟩
  have hall : ∀ pre, (runOps kernStep pre k).2.Base ∧
      TableOk (runOps kernStep pre k).2.procs (runOps kernStep pre k).2.io.tables := fun pre =>
    runOps_inv (fun k : Kern => k.Base ∧ TableOk k.procs k.io.tables) hstep pre ⟨(processInit_mm hk).1, hT⟩
  have hiff := forall_prefix_iff_along (fun k : Kern => (k.Base ∧ TableOk k.procs k.io.tables) ∧ FileOk k.io)
    (fun op k h => (and_iff_right (hstep op k h.1)).trans ((files_step h.1.1 h.1.2 op).2 h.2)) ops
    ⟨⟨(processInit_mm hk).1, hT⟩, hF⟩
  rw [← hiff]
  exact forall₂_congr fun pre _ => (and_iff_right (hall pre)).symm

theorem file_run_refcount_small : ∃ k, processInit idleAns initAns = some k ∧
    FileOk (runOps kernStep [.execve 101 10 true, .openFile 101 oCloexec (.ok 300), .dup 101 3,
      .fork 101 0 childAns, .closeFile 102 3, .exit 102 0,
      .wait 101 (-1)] k).2.io := by
  obtain ⟨k, hk, hclean⟩ := exists_boot (P := fun k =>
    ∀ i < procMaxFds, ((k.io.get (k.procs.get 101).files).fds i).file = 0) (by decide +kernel)
  refine ⟨k, hk, (file_run_refcount hk _).mpr ?_ _ List.prefix_rfl⟩
  refine ⟨?_, trivial, trivial, trivial, trivial, trivial, trivial, trivial⟩
  exact fun _ _ _ _ i _ hi _ => hclean i hi

/-- `init` opens a file with `O_CLOEXEC` and executes a program: the descriptor is closed, the file
keeps its reference. -/
theorem cloexec_leaks_file : ∃ k, processInit idleAns initAns = some k ∧
    let k' := (runOps kernStep [.openFile 101 oCloexec (.ok 300), .execve 101 10 true] k).2
    k'.io.count.lookup 300 = some 1 ∧ ¬ FileOk k'.io := by
  obtain ⟨k, hk, hr, hfree, hbit, hfile, hcount⟩ := exists_boot (P := fun k =>
    let k1 := (kernStep (.openFile 101 oCloexec (.ok 300)) k).2
    k1.procs.runnable 101 = true ∧ 10 ∉ k1.vm.refcount ∧
      hasBit ((k1.io.get (k1.procs.get 101).files).fds 3).flags oCloexec = true ∧
      ((k1.io.get (k1.procs.get 101).files).fds 3).file = 300 ∧
      (kernStep (.execve 101 10 true) k1).2.io.count.lookup 300 = some 1) (by decide +kernel)
  obtain ⟨hT, hF⟩ := processInit_files hk
  have hbase := (processInit_mm hk).1
  have hopen := files_step hbase hT (.openFile 101 oCloexec (.ok 300))
  have hexec := files_step (hbase.step _) hopen.1 (.execve 101 10 true)
  refine ⟨k, hk, hcount, fun hbad => ?_⟩
  have hnone := (hexec.2 ((hopen.2 hF).mpr trivial)).mp hbad hr rfl (by decide) hfree 3 (le_refl 3) (by decide) hbit
  rw [hfile] at hnone
  cases hnone

/-- **What no run breaks**: processes have identifiers of their own under which `pid_table` finds them, the
kernel's address space is never destroyed, and every descriptor table counts its processes. -/
theorem kern_run_consistent {a b : CreateAns} (hk : processInit a b = some k) (ops : List KernOp) :
    let k' := (runOps kernStep ops k).2
    k'.Base ∧ TableOk k'.procs k'.io.tables :=
  runOps_inv (fun k : Kern => k.Base ∧ TableOk k.procs k.io.tables)
    (fun op _ h => ⟨h.1.step op, (files_step h.1 h.2 op).1⟩) ops ⟨(processInit_mm hk).1, (processInit_files hk).1⟩

theorem kern_run_consistent_fork : ∃ k, processInit idleAns initAns = some k ∧
    let k' := (runOps kernStep [.fork 101 0 childAns] k).2
    k'.Base ∧ TableOk k'.procs k'.io.tables :=
  (exists_boot (P := fun _ => True) (by decide +kernel)).imp fun _ h => ⟨h.1, kern_run_consistent h.1 _⟩

end Processes

end Obelisk
