import Mathlib.Data.Int.Notation
import Mathlib.Data.List.Basic
import Obelisk.Lib.Run

/-!
# Listing a directory

`axiomfs_readdir` of `kernel/fs/axiomfs/dir.c` under `sys_getdents64`: a listing goes on at a position
in the list of the directory's children, which later calls find changed by `unlink`.
-/

namespace Obelisk.Axiomfs

open KLib List

variable {count : ℕ} {s : Scan} {a : GetdentsAns} {op : ScanOp} {init : List Child}

/-! ## Model -/

/-- `DT_*` -/
inductive DirType
  | unknown
  | dir
  | reg
  | lnk
  deriving DecidableEq

/-- A dentry on `d_subdirs`, with the number and type of its inode unless it is negative. -/
structure Child where
  name : List (BitVec 8)
  inode : Option (ℕ × DirType)
  short : name.length ≤ 255

def dot : List (BitVec 8) := [46]
def dotDot : List (BitVec 8) := [46, 46]

/-- A directory: its children have different names, none of them `.` or `..`. -/
structure Directory where
  ino : ℕ
  parentIno : ℕ
  children : List Child
  nodup : (children.map Child.name).Nodup
  noDots : ∀ c ∈ children, c.name ≠ dot ∧ c.name ≠ dotDot

/-- `struct linux_dirent64` -/
structure Dirent where
  ino : ℕ
  off : ℕ
  type : DirType
  name : List (BitVec 8)

/-- `struct getdents64_ctx` -/
structure GetdentsCtx where
  pos : ℕ
  count : ℕ
  written : ℕ
  records : List Dirent

def reclen (namlen : ℕ) : ℕ := (19 + namlen + 1 + 7) / 8 * 8

def filldirGetdents64 (name : List (BitVec 8)) (pos ino : ℕ) (type : DirType) (c : GetdentsCtx) :
    Bool × GetdentsCtx :=
  if c.count < c.written + reclen name.length then (true, c)
  else
    (false, { c with
      written := c.written + reclen name.length
      records := c.records ++ [⟨ino, pos, type, name⟩]
      pos := pos + 1 })

def emitDir (pos : ℕ) (name : List (BitVec 8)) (ino : ℕ) (c : GetdentsCtx) : Bool × GetdentsCtx :=
  if c.pos = pos then
    let r := filldirGetdents64 name c.pos ino .dir c
    if r.1 then r else (false, { r.2 with pos := r.2.pos + 1 })
  else (false, c)

def readdirChildren : List Child → ℕ → GetdentsCtx → GetdentsCtx
  | [], _, c => c
  | child :: rest, pos, c =>
    match child.inode with
    | none => readdirChildren rest (pos + 1) c
    | some (ino, type) =>
      if c.pos ≤ pos then
        let r := filldirGetdents64 child.name pos ino type c
        if r.1 then r.2 else readdirChildren rest (pos + 1) { r.2 with pos := pos + 1 }
      else readdirChildren rest (pos + 1) c

/-- `axiomfs_readdir`, once the policy has allowed it. -/
def axiomfsReaddir (d : Directory) (c : GetdentsCtx) : GetdentsCtx :=
  let r := emitDir 0 dot d.ino c
  if r.1 then r.2
  else
    let r := emitDir 1 dotDot d.parentIno r.2
    if r.1 then r.2 else readdirChildren d.children 2 r.2

/-- An open directory that is read while entries are unlinked. -/
structure Scan where
  dir : Directory
  fPos : ℕ
  returned : List Dirent

/-- The answers a call gets: whether the policy denies it, whether there is memory for the buffer, and
whether the caller's buffer can be written. -/
structure GetdentsAns where
  denied : Bool
  memory : Bool
  copied : Bool

def sysGetdents64 (count : ℕ) (a : GetdentsAns) (s : Scan) : ℤ × Scan :=
  if count = 0 then (-22, s)
  else if !a.memory then (-12, s)
  else if a.denied then (-13, s)
  else
    let c := axiomfsReaddir s.dir ⟨s.fPos, min count (64 * 1024), 0, []⟩
    if 0 < c.written ∧ !a.copied then (-14, { s with fPos := c.pos })
    else (c.written, { s with fPos := c.pos, returned := s.returned ++ c.records })

def Directory.unlink (i : ℕ) (d : Directory) : Directory where
  ino := d.ino
  parentIno := d.parentIno
  children := d.children.eraseIdx i
  nodup := d.nodup.sublist ((eraseIdx_sublist ..).map _)
  noDots c hc := d.noDots c ((eraseIdx_sublist ..).subset hc)

/-- A call between the reads of a scan, or a read. -/
inductive ScanOp
  | getdents (count : ℕ) (a : GetdentsAns)
  | unlink (i : ℕ)

def scanStep : ScanOp → Scan → ℤ × Scan
  | .getdents count a, s => sysGetdents64 count a s
  | .unlink i, s => (0, { s with dir := s.dir.unlink i })

/-- The buffers have at least 280 bytes and can be written; only children that have been returned are
unlinked. -/
def ScanOp.Allowed : ScanOp → Scan → Prop
  | getdents count a, _ => 280 ≤ count ∧ a.copied = true
  | unlink i, s => ∃ c, s.dir.children[i]? = some c ∧ ∃ r ∈ s.returned, r.name = c.name

def ScanOp.NothingNext : ScanOp → Scan → Prop
  | getdents .., _ => True
  | unlink _, s => ∀ c, s.dir.children[s.fPos - 2]? = some c → c.inode = none

def listed (l : List Child) : List (List (BitVec 8)) :=
  (l.filter (·.inode.isSome)).map Child.name

lemma listed_append (l l' : List Child) : listed (l ++ l') = listed l ++ listed l' := by
  rw [listed, filter_append, map_append]
  rfl

lemma reclen_le {child : Child} : 0 < reclen child.name.length ∧ reclen child.name.length ≤ 280 := by
  have := child.short
  simp only [reclen]
  omega

/-- What the loop over the children `l` from position `pos` on has added to a context `c`: the children
`X`, the last of which was returned, if any was. -/
structure Emits (l : List Child) (pos : ℕ) (c c' : GetdentsCtx) (X R : List Child) : Prop where
  split : l = X ++ R
  names : c'.records.map Dirent.name = c.records.map Dirent.name ++ listed X
  pos_eq : c'.pos = if X = [] then c.pos else pos + X.length
  grows : X = [] ∧ c'.written = c.written ∨ c.written < c'.written
  stops : X = [] → c.written + 280 ≤ c.count → listed l = []

lemma readdirChildren_spec (l : List Child) (pos : ℕ) (c : GetdentsCtx) (hpos : c.pos ≤ pos) :
    ∃ X R, Emits l pos c (readdirChildren l pos c) X R := by
  induction l generalizing pos c with
  | nil =>
    refine ⟨[], [], rfl, ?_, rfl, .inl ⟨rfl, rfl⟩, fun _ _ => rfl⟩
    exact (append_nil _).symm
  | cons child rest ih =>
    rw [readdirChildren]
    cases hi : child.inode with
    | none =>
      obtain ⟨X, R, h⟩ := ih (pos + 1) c (by omega)
      have hskip : ∀ l, listed (child :: l) = listed l := fun l => by simp [listed, hi]
      by_cases hX : X = []
      · refine ⟨[], child :: R, ?_, ?_, ?_, ?_, fun _ hroom => ?_⟩
        · rw [h.split, hX]
          rfl
        · rw [h.names, hX]
        · rw [h.pos_eq, if_pos hX, if_pos rfl]
        · exact h.grows.imp_left fun h => ⟨rfl, h.2⟩
        · rw [hskip]
          exact h.stops hX hroom
      refine ⟨child :: X, R, ?_, ?_, ?_, ?_, fun hnil => by cases hnil⟩
      · rw [h.split, cons_append]
      · rw [h.names, hskip]
      · rw [h.pos_eq, if_neg hX, if_neg (cons_ne_nil _ _), length_cons]
        omega
      · exact .inr (h.grows.resolve_left fun h => hX h.1)
    | some node =>
      dsimp only
      rw [if_pos hpos, filldirGetdents64]
      have hlen := @reclen_le child
      by_cases hfull : c.count < c.written + reclen child.name.length
      · rw [if_pos hfull]
        refine ⟨[], child :: rest, rfl, (append_nil _).symm, rfl, .inl ⟨rfl, rfl⟩, fun _ hroom => ?_⟩
        omega
      rw [if_neg hfull]
      set c1 : GetdentsCtx := { c with
        written := c.written + reclen child.name.length
        records := c.records ++ [⟨node.1, pos, node.2, child.name⟩]
        pos := pos + 1 }
      obtain ⟨X, R, h⟩ := ih (pos + 1) c1 (Nat.le_refl _)
      refine ⟨child :: X, R, ?_, ?_, ?_, ?_, fun hnil => by cases hnil⟩
      · rw [h.split, cons_append]
      · refine h.names.trans ?_
        simp [c1, listed, hi]
      · refine h.pos_eq.trans ?_
        rw [if_neg (cons_ne_nil _ _), length_cons]
        split_ifs with hX
        · rw [hX]
          rfl
        · omega
      have hc : c.written < c1.written := by
        simp only [c1]
        omega
      exact .inr (h.grows.elim (fun h => h.2.symm ▸ hc) (Nat.lt_trans hc))

lemma readdirChildren_drop (l : List Child) (pos : ℕ) (c : GetdentsCtx) (hpos : pos ≤ c.pos) :
    readdirChildren l pos c = readdirChildren (l.drop (c.pos - pos)) c.pos c := by
  induction l generalizing pos with
  | nil => rw [drop_nil, readdirChildren, readdirChildren]
  | cons child rest ih =>
    obtain rfl | hlt := Nat.eq_or_lt_of_le hpos
    · rw [Nat.sub_self, drop_zero]
    have hdrop : (child :: rest).drop (c.pos - pos) = rest.drop (c.pos - (pos + 1)) := by
      rw [show c.pos - pos = c.pos - (pos + 1) + 1 by omega, drop_succ_cons]
    rw [readdirChildren, hdrop, ← ih (pos + 1) hlt]
    cases child.inode with
    | none => rfl
    | some node =>
      dsimp only
      rw [if_neg (by omega)]

/-! ## Listings -/

/-- **The state of a listing** of the directory with the children `init`: those before its position
have been returned after `.`, the others are still to come. -/
def Listed (init : List Child) (s : Scan) : Prop :=
  (s.fPos = 0 ∧ s.returned = [] ∧ s.dir.children = init) ∨
    2 ≤ s.fPos ∧ ∃ V, init = V ++ s.dir.children.drop (s.fPos - 2) ∧ s.returned.map Dirent.name = dot :: listed V

def NoDotDot (s : Scan) : Prop := s.fPos ≠ 1 ∧ ∀ r ∈ s.returned, r.name ≠ dotDot

lemma axiomfsReaddir_high (d : Directory) {c : GetdentsCtx} (hpos : 2 ≤ c.pos) :
    axiomfsReaddir d c = readdirChildren (d.children.drop (c.pos - 2)) c.pos c := by
  have h0 : emitDir 0 dot d.ino c = (false, c) := if_neg (by omega)
  have h1 : emitDir 1 dotDot d.parentIno c = (false, c) := if_neg (by omega)
  rw [axiomfsReaddir, h0]
  rw [if_neg Bool.false_ne_true, h1, ← readdirChildren_drop d.children 2 c hpos]
  exact if_neg Bool.false_ne_true

lemma axiomfsReaddir_first (d : Directory) (hcount : 24 ≤ count) : axiomfsReaddir d ⟨0, count, 0, []⟩ =
      readdirChildren d.children 2 ⟨2, count, 24, [⟨d.ino, 0, .dir, dot⟩]⟩ := by
  have h0 : emitDir 0 dot d.ino ⟨0, count, 0, []⟩ =
      (false, ⟨2, count, 24, [⟨d.ino, 0, .dir, dot⟩]⟩) := by
    have hfit : ¬ count < 24 := by omega
    simp [emitDir, filldirGetdents64, dot, reclen, hfit]
  rw [axiomfsReaddir, h0]
  rfl

lemma getdents_cases (hc : 280 ≤ count) (ha : a.copied = true) (hpos : s.fPos ≠ 1) :
    (sysGetdents64 count a s).2 = s ∧ (sysGetdents64 count a s).1 < 0 ∨
    ∃ c c' X R, Emits (s.dir.children.drop (c.pos - 2)) c.pos c c' X R ∧
      (s.fPos = 0 ∧ c.pos = 2 ∧ c.records = [⟨s.dir.ino, 0, .dir, dot⟩] ∧ 0 < c.written ∨
        2 ≤ s.fPos ∧ c.pos = s.fPos ∧ c.records = [] ∧ c.written = 0 ∧ 280 ≤ c.count) ∧
      sysGetdents64 count a s =
        ((c'.written : ℤ), { s with fPos := c'.pos, returned := s.returned ++ c'.records }) := by
  unfold sysGetdents64
  rw [if_neg (by omega)]
  split_ifs with hm hd
  · exact .inl ⟨rfl, Int.negSucc_lt_zero 11⟩
  · exact .inl ⟨rfl, Int.negSucc_lt_zero 12⟩
  right
  have hcopy : ∀ n : ℕ, ¬ (0 < n ∧ (!a.copied) = true) := by simp [ha]
  rw [if_neg (hcopy _)]
  obtain h0 | h2 : s.fPos = 0 ∨ 2 ≤ s.fPos := by omega
  · rw [h0, axiomfsReaddir_first _ (by omega)]
    obtain ⟨X, R, h⟩ := readdirChildren_spec s.dir.children 2
      ⟨2, min count (64 * 1024), 24, [⟨s.dir.ino, 0, .dir, dot⟩]⟩ (Nat.le_refl 2)
    exact ⟨⟨2, min count (64 * 1024), 24, [⟨s.dir.ino, 0, .dir, dot⟩]⟩, _, X, R, h,
      .inl ⟨rfl, rfl, rfl, Nat.succ_pos 23⟩, rfl⟩
  rw [axiomfsReaddir_high s.dir h2]
  obtain ⟨X, R, h⟩ := readdirChildren_spec (s.dir.children.drop (s.fPos - 2)) s.fPos
    ⟨s.fPos, min count (64 * 1024), 0, []⟩ (Nat.le_refl _)
  exact ⟨⟨s.fPos, min count (64 * 1024), 0, []⟩, _, X, R, h,
    .inr ⟨h2, rfl, rfl, rfl, show 280 ≤ min count (64 * 1024) by omega⟩, rfl⟩

lemma noDotDot_step (ha : op.Allowed s) (h : NoDotDot s) : NoDotDot (scanStep op s).2 := by
  cases op with
  | unlink i => exact h
  | getdents count a =>
    obtain ⟨hsame, -⟩ | ⟨c, c', X, R, he, hc, hrun⟩ := getdents_cases ha.1 ha.2 h.1
    · exact hsame.symm ▸ h
    rw [scanStep, hrun]
    have hpos : 2 ≤ c.pos := by omega
    refine ⟨?_, fun r hr => ?_⟩
    · change c'.pos ≠ 1
      rw [he.pos_eq]
      split_ifs <;> omega
    obtain hr | hr := mem_append.mp hr
    · exact h.2 r hr
    have hname : r.name ∈ c.records.map Dirent.name ++ listed X := he.names ▸ mem_map_of_mem hr
    obtain hold | hnew := mem_append.mp hname
    · obtain ⟨-, -, hrec, -⟩ | ⟨-, -, hrec, -⟩ := hc
      · rw [hrec] at hold
        rw [mem_singleton.mp hold]
        exact show dot ≠ dotDot by decide
      · rw [hrec] at hold
        cases hold
    obtain ⟨child, hchild, hcn⟩ := mem_map.mp hnew
    have hX : child ∈ X ++ R := mem_append_left R (mem_filter.mp hchild).1
    exact hcn ▸ (s.dir.noDots child (mem_of_mem_drop (he.split ▸ hX))).2

lemma drop_eraseIdx {l : List Child} {i n : ℕ} (hi : i < n) :
    (l.eraseIdx i).drop n = (l.drop n).tail := by
  apply ext_getElem?
  intro k
  rw [getElem?_drop, getElem?_tail, getElem?_drop, getElem?_eraseIdx, if_neg (by omega), Nat.add_assoc]

lemma listed_step (hnd : (init.map Child.name).Nodup)
    (ha : op.Allowed s) (hn : op.NothingNext s) (h : Listed init s) :
    Listed init (scanStep op s).2 := by
  cases op with
  | unlink i =>
    obtain ⟨child, hchild, r, hr, hname⟩ := ha
    obtain ⟨-, hnone, -⟩ | ⟨hpos, V, hinit, hret⟩ := h
    · rw [hnone] at hr
      cases hr
    obtain ⟨hlen, hget⟩ := List.getElem?_eq_some_iff.mp hchild
    -- the child has been returned, so that it is before the position
    have hV : child.name ∈ V.map Child.name := by
      have hrn : r.name ∈ dot :: listed V := hret ▸ mem_map_of_mem hr
      obtain hd | hl := mem_cons.mp hrn
      · exact absurd (hname.symm.trans hd) (s.dir.noDots child (hget ▸ getElem_mem hlen)).1
      obtain ⟨c, hc, hcn⟩ := mem_map.mp hl
      exact mem_map.mpr ⟨c, (mem_filter.mp hc).1, hcn.trans hname⟩
    have hbefore : i < s.fPos - 2 := by
      by_contra hge
      rw [hinit, map_append] at hnd
      refine (nodup_append.mp hnd).2.2 _ hV _ (mem_map_of_mem ?_) rfl
      refine mem_of_getElem? (i := i - (s.fPos - 2)) ?_
      rw [getElem?_drop, Nat.add_sub_cancel' (by omega), hchild]
    refine .inr ⟨hpos, ?_⟩
    change ∃ V, init = V ++ (s.dir.children.eraseIdx i).drop (s.fPos - 2) ∧ _
    rw [drop_eraseIdx hbefore]
    cases hR : s.dir.children.drop (s.fPos - 2) with
    | nil => exact ⟨V, by rw [hinit, hR, tail_nil], hret⟩
    | cons x xs =>
      have hx : x.inode = none := hn x (by rw [← head?_drop, hR, head?_cons])
      refine ⟨V ++ [x], by rw [hinit, hR, tail_cons, append_assoc]; rfl, ?_⟩
      have hlx : listed [x] = [] := by simp [listed, hx]
      rwa [listed_append, hlx, append_nil]
  | getdents count a =>
    have hne : s.fPos ≠ 1 := by
      obtain ⟨h0, -⟩ | ⟨h2, -⟩ := h <;> omega
    obtain ⟨hsame, -⟩ | ⟨c, c', X, R, he, hc, hrun⟩ := getdents_cases ha.1 ha.2 hne
    · exact hsame.symm ▸ h
    rw [scanStep, hrun]
    have hpos : c'.pos = c.pos + X.length := by
      rw [he.pos_eq]
      split_ifs with hX
      · rw [hX]
        rfl
      · rfl
    have hR : s.dir.children.drop (c'.pos - 2) = R := by
      rw [hpos, show c.pos + X.length - 2 = c.pos - 2 + X.length by omega, ← drop_drop, he.split, drop_left]
    refine .inr ⟨show 2 ≤ c'.pos by omega, ?_⟩
    change ∃ V, init = V ++ s.dir.children.drop (c'.pos - 2) ∧
      (s.returned ++ c'.records).map Dirent.name = dot :: listed V
    rw [hR, map_append, he.names]
    obtain ⟨h0, hcp, hrec, -⟩ | ⟨h2, hcp, hrec, -⟩ := hc
    · obtain ⟨-, hnone, hinit⟩ | ⟨hpos, -⟩ := h
      · have hsplit := he.split
        rw [hcp, Nat.sub_self, drop_zero, hinit] at hsplit
        exact ⟨X, hsplit, by rw [hnone, hrec]; rfl⟩
      · omega
    obtain ⟨h0, -⟩ | ⟨-, V, hinit, hret⟩ := h
    · omega
    refine ⟨V ++ X, ?_, ?_⟩
    · rw [hinit, ← hcp, he.split, append_assoc]
    rw [hret, hrec, listed_append]
    rfl

lemma listed_end (hc : 280 ≤ count)
    (ha : a.copied = true) (h : Listed init s) (hz : (sysGetdents64 count a s).1 = 0) :
    (sysGetdents64 count a s).2.returned.map Dirent.name = dot :: listed init := by
  have hne : s.fPos ≠ 1 := by
    obtain ⟨h0, -⟩ | ⟨h2, -⟩ := h <;> omega
  obtain ⟨-, hneg⟩ | ⟨c, c', X, R, he, hctx, hrun⟩ := getdents_cases hc ha hne
  · omega
  have hz' : c'.written = 0 := by
    rw [hrun] at hz
    exact Int.natCast_eq_zero.mp hz
  obtain ⟨hX, hw⟩ := he.grows.resolve_right (by omega)
  obtain ⟨-, -, -, hpos⟩ | ⟨h2, hcp, hrec, hzero, hroom⟩ := hctx
  · omega
  obtain ⟨h0, -⟩ | ⟨-, V, hinit, hret⟩ := h
  · omega
  have hrest := he.stops hX (by omega)
  rw [hrun, map_append, he.names, hrec, hX, hret, hinit, listed_append, ← hcp, hrest]
  rfl

/-- **Main.** For every directory and every listing of it, with buffers of at least 280 bytes and with
unlinks of children that were returned, up to a call that returns `0`: no record is for `..`; and if
every unlink finds no child at the position of the listing, the records are `.` and the children of
the directory, each once and in order. -/
theorem getdents_scan (d : Directory) (ops : List ScanOp) (count : ℕ) (a : GetdentsAns)
    (ha : Along scanStep ScanOp.Allowed (ops ++ [.getdents count a]) ⟨d, 0, []⟩)
    (hz : (sysGetdents64 count a (runOps scanStep ops ⟨d, 0, []⟩).2).1 = 0) :
    (∀ r ∈ (sysGetdents64 count a (runOps scanStep ops ⟨d, 0, []⟩).2).2.returned, r.name ≠ dotDot) ∧
    (Along scanStep ScanOp.NothingNext ops ⟨d, 0, []⟩ →
      (sysGetdents64 count a (runOps scanStep ops ⟨d, 0, []⟩).2).2.returned.map Dirent.name =
        dot :: listed d.children) := by
  obtain ⟨hops, hlast, -⟩ := (along_append ..).mp ha
  constructor
  · have h := runOps_inv_along (Q := fun _ => True) NoDotDot (fun op s _ => noDotDot_step)
      (fun _ _ => trivial) hops ⟨Nat.zero_ne_one, fun r hr => by cases hr⟩
    have hend : NoDotDot (scanStep (.getdents count a) _).2 := noDotDot_step hlast h
    exact hend.2
  intro hn
  have h := runOps_inv_along (P := fun (op : ScanOp) s => op.Allowed s ∧ op.NothingNext s)
    (Q := fun _ => True) (Listed d.children) (fun op s _ h => listed_step d.nodup h.1 h.2)
    (fun _ _ => trivial) (hops.and hn) (.inl ⟨rfl, rfl, rfl⟩)
  exact listed_end hlast.1 hlast.2 h hz

def longChild (b : BitVec 8) (ino : ℕ) : Child :=
  ⟨List.replicate 250 b, some (ino, .reg), by rw [length_replicate]; decide⟩

def threeFiles : Directory where
  ino := 1
  parentIno := 1
  children := [longChild 97 2, longChild 98 3, longChild 99 4]
  nodup := by decide
  noDots := by decide

/-- All three files are returned, and the first is unlinked before the call that returns `0`. -/
theorem getdents_scan_small :
    let ops : List ScanOp := [.getdents 4096 ⟨false, true, true⟩, .unlink 0]
    let s := (runOps scanStep ops ⟨threeFiles, 0, []⟩).2
    s.dir.children.length = 2 ∧ (sysGetdents64 280 ⟨false, true, true⟩ s).1 = 0 ∧
      (sysGetdents64 280 ⟨false, true, true⟩ s).2.returned.map Dirent.name = dot :: listed threeFiles.children := by
  intro ops
  have hlen : (runOps scanStep ops ⟨threeFiles, 0, []⟩).2.dir.children.length = 2 := by decide +kernel
  have hz : (sysGetdents64 280 ⟨false, true, true⟩ (runOps scanStep ops ⟨threeFiles, 0, []⟩).2).1 = 0 := by
    decide +kernel
  have hdir : (scanStep (.getdents 4096 ⟨false, true, true⟩) ⟨threeFiles, 0, []⟩).2.dir = threeFiles := by
    simp only [scanStep, sysGetdents64]
    split_ifs <;> rfl
  have hall : Along scanStep ScanOp.Allowed (ops ++ [.getdents 280 ⟨false, true, true⟩]) ⟨threeFiles, 0, []⟩ := by
    refine ⟨⟨by decide, rfl⟩, ⟨longChild 97 2, ?_, by decide +kernel⟩, ⟨Nat.le_refl _, rfl⟩, trivial⟩
    rw [hdir]
    rfl
  have hnext : Along scanStep ScanOp.NothingNext ops ⟨threeFiles, 0, []⟩ := by
    refine ⟨trivial, fun c hc => ?_, trivial⟩
    rw [hdir] at hc
    exact absurd (List.getElem?_eq_some_iff.mp hc).1 (by decide +kernel)
  clear_value ops
  exact ⟨hlen, hz, (getdents_scan threeFiles ops 280 ⟨false, true, true⟩ hall hz).2 hnext⟩

/-- Three files are listed one by one, and the first is unlinked when it has been returned: the listing
returns neither `..` nor the second file, which is there all the time. -/
theorem scan_loses_entries : let call : ScanOp := .getdents 280 ⟨false, true, true⟩
    let r := runOps scanStep [call, call, .unlink 0, call, call] ⟨threeFiles, 0, []⟩
    r.1 = [24, 272, 0, 272, 0] ∧ r.2.dir.children.map Child.name = [List.replicate 250 98, List.replicate 250 99] ∧
      r.2.returned.map Dirent.name = [dot, List.replicate 250 97, List.replicate 250 99] := by
  decide +kernel

end Obelisk.Axiomfs
