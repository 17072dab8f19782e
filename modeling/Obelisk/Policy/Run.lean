import Obelisk.Policy.Invariant

/-!
# Policy cache: whole runs

- `policyRun_sound`: an answer was inserted for its key and has not expired.
- `policyRun_fresh`: an unexpired entry is found.
-/

namespace Obelisk

open KLib KLib.ColorTree List

variable {e now ttl : ℕ} {past : List CacheOp} {op : CacheOp} {c c' : PolicyCache}

def FromInsert (ttl : ℕ) (past : List CacheOp) (entry : PolicyCacheEntry) : Prop :=
  ∃ before t0 answer after, past = before ++ .insert t0 entry.key entry.result answer :: after ∧
    entry.expiry = u64 (t0 + ttl) ∧
    ∀ op ∈ after, op ≠ .flush ∧ op ≠ .invalidate entry.key.inode

lemma FromInsert.snoc {entry : PolicyCacheEntry} (h : FromInsert ttl past entry)
    (hop : op ≠ .flush ∧ op ≠ .invalidate entry.key.inode) :
    FromInsert ttl (past ++ [op]) entry := by
  obtain ⟨before, t0, answer, after, rfl, hexp, hafter⟩ := h
  refine ⟨before, t0, answer, after ++ [op], by simp, hexp, fun op' hop' => ?_⟩
  obtain hop' | hop' := mem_append.mp hop'
  · exact hafter op' hop'
  · exact mem_singleton.mp hop' ▸ hop

def CacheAfter (ttl : ℕ) (past : List CacheOp) (c : PolicyCache) : Prop :=
  c.defaultTtl = ttl ∧ ∃ nodes order, PolicyOk c nodes order ∧ ∀ e ∈ order, FromInsert ttl past (c.entries e)

lemma CacheAfter.step (h : CacheAfter ttl past c) (op : CacheOp) :
    ∃ c', op.exec c = some c' ∧ c'.maxEntries = c.maxEntries ∧
      CacheAfter ttl (past ++ [op]) c' := by
  obtain ⟨httl, nodes, order, hok, hfrom⟩ := h
  cases op with
  | insert now k result answer =>
    obtain ⟨c', nodes', kept, hrun, hpre, httl', hmax, hkept, hok'⟩ := hok.insert now k result answer
    have hold : ∀ e ∈ kept, FromInsert ttl (past ++ [.insert now k result answer]) (c'.entries e) := by
      intro e he
      rw [hkept e he]
      exact (hfrom e (hpre.subset he)).snoc ⟨nofun, nofun⟩
    refine ⟨c', hrun, hmax, httl'.trans httl, nodes', ?_⟩
    obtain hok' | ⟨e, b, a, -, -, hok', hent⟩ := hok'
    · exact ⟨kept, hok', hold⟩
    refine ⟨e :: kept, hok', fun x hx => ?_⟩
    obtain rfl | hx := mem_cons.mp hx
    · rw [hent, httl]
      exact ⟨past, now, answer, [], rfl, rfl, by simp⟩
    · exact hold x hx
  | lookup now k =>
    obtain ⟨r, c', hrun, hsame, ⟨order', hok', hperm⟩, -⟩ := hok.lookup now k
    refine ⟨c', by rw [CacheOp.exec, hrun]; rfl, hsame.max, hsame.ttl.trans httl, nodes, order', hok', ?_⟩
    intro e he
    rw [hsame.entries]
    exact (hfrom e (hperm.mem_iff.mp he)).snoc ⟨nofun, nofun⟩
  | invalidate inode =>
    obtain ⟨c', nodes', hrun, hsame, hok'⟩ := hok.invalidate inode
    refine ⟨c', hrun, hsame.max, hsame.ttl.trans httl, nodes', _, hok', fun e he => ?_⟩
    rw [mem_filter, decide_eq_true_eq] at he
    rw [hsame.entries]
    refine (hfrom e he.1).snoc ⟨nofun, fun h => he.2 ?_⟩
    cases h
    rfl
  | flush =>
    obtain ⟨c', hrun, hsame, hok'⟩ := hok.flush
    exact ⟨c', hrun, hsame.max, hsame.ttl.trans httl, [], [], hok', by simp⟩

lemma CacheAfter.run (ops : List CacheOp)
    (h : CacheAfter ttl past c) : ∃ c', policyRun ops c = some c' ∧ c'.maxEntries = c.maxEntries ∧
      CacheAfter ttl (past ++ ops) c' := by
  induction ops generalizing past c with
  | nil => exact ⟨c, rfl, rfl, by rwa [append_nil]⟩
  | cons op ops ih =>
    obtain ⟨c1, hexec, hmax, h1⟩ := h.step op
    obtain ⟨c', hrun, hmax', h'⟩ := ih h1
    rw [append_assoc, singleton_append] at h'
    exact ⟨c', by rwa [policyRun, hexec], hmax'.trans hmax, h'⟩

/-- **The cache is sound.** After every sequence of calls the tree and the list hold the same entries,
as many as `count` says and at most `max_entries`; and an answer of a lookup is the result of an
earlier insertion for exactly that key, made less than the time to live ago, with no flush and no
invalidation of the inode in between. -/
theorem policyRun_sound {maxEntries : ℕ} (ttl : ℕ) (hmax : 1 ≤ maxEntries) (ops : List CacheOp) :
    ∃ c nodes order, policyRun ops (policyCacheCreate maxEntries ttl) = some c ∧
      IsRbTree c.tree nodes ∧ Ring c.lru 0 order ∧ nodes.Perm order ∧ order.length = c.count ∧
      c.count ≤ maxEntries ∧ ∀ now k, ∃ r c', policyCacheLookup now k c = some (r, c') ∧
        (0 ≤ r → ∃ before t0 answer after, ops = before ++ .insert t0 k r answer :: after ∧
          now < t0 + ttl ∧ ∀ op ∈ after, op ≠ .flush ∧ op ≠ .invalidate k.inode) := by
  have h0 : CacheAfter ttl [] (policyCacheCreate maxEntries ttl) :=
    ⟨rfl, [], [], policyOk_create hmax, by simp⟩
  obtain ⟨c, hrun, hmax', httl, nodes, order, hok, hfrom⟩ := h0.run ops
  refine ⟨c, nodes, order, hrun, hok.tree, hok.lru, hok.perm, hok.count.symm, ?_, fun now k => ?_⟩
  · exact hok.room.trans_eq hmax'
  obtain ⟨r, c', hlook, -, -, hr⟩ := hok.lookup now k
  refine ⟨r, c', hlook, fun hr0 => ?_⟩
  obtain rfl | ⟨e, he, rfl, hexp, rfl⟩ := hr
  · omega
  obtain ⟨before, t0, answer, after, hpast, hexp', hafter⟩ := hfrom e he
  refine ⟨before, t0, answer, after, hpast, ?_, hafter⟩
  rw [hexp'] at hexp
  exact hexp.trans_le (Nat.mod_le ..)

theorem policyRun_sound_small :
    ∃ c nodes order, policyRun [.insert 5 ⟨1, 1, 7, 1⟩ 0 (some 8), .lookup 6 ⟨1, 1, 7, 1⟩]
        (policyCacheCreate 1 10) = some c ∧
      IsRbTree c.tree nodes ∧ Ring c.lru 0 order ∧ nodes.Perm order ∧ order.length = c.count ∧
      c.count ≤ 1 ∧ ∀ now k, ∃ r c', policyCacheLookup now k c = some (r, c') ∧
        (0 ≤ r → ∃ before t0 answer after, [CacheOp.insert 5 ⟨1, 1, 7, 1⟩ 0 (some 8),
            .lookup 6 ⟨1, 1, 7, 1⟩] = before ++ .insert t0 k r answer :: after ∧
          now < t0 + 10 ∧ ∀ op ∈ after, op ≠ .flush ∧ op ≠ .invalidate k.inode) :=
  policyRun_sound 10 (by decide) _

/-- After an insertion no two entries have the hash of its key. -/
def NewHash : CacheOp → PolicyCache → Prop
  | .insert _ k _ _, c => ∀ x ∈ c.heap, ∀ y ∈ c.heap, (c.entries x).hash = policyCacheHash k →
      (c.entries y).hash = policyCacheHash k → x = y
  | _, _ => True

def NewHashes : List CacheOp → PolicyCache → Prop
  | [], _ => True
  | op :: ops, c => ∀ c' ∈ op.exec c, NewHash op c' ∧ NewHashes ops c'

instance (op : CacheOp) (c : PolicyCache) : Decidable (NewHash op c) := by
  cases op <;> dsimp only [NewHash] <;> infer_instance

instance decidableNewHashes : ∀ (ops : List CacheOp) (c : PolicyCache), Decidable (NewHashes ops c)
  | [], _ => .isTrue trivial
  | op :: ops, c =>
    have := decidableNewHashes ops
    inferInstanceAs (Decidable (∀ c' ∈ op.exec c, NewHash op c' ∧ NewHashes ops c'))

def OneEach (c : PolicyCache) (order : List ℕ) : Prop :=
  ∀ x ∈ order, ∀ y ∈ order, (c.entries x).hash = (c.entries y).hash → x = y

lemma OneEach.of_subset {order order' : List ℕ} (h : OneEach c order) (hsub : ∀ e ∈ order', e ∈ order)
    (hent : ∀ e ∈ order', c'.entries e = c.entries e) :
    OneEach c' order' := fun x hx y hy hxy => by
  rw [hent x hx, hent y hy] at hxy
  exact h x (hsub x hx) y (hsub y hy) hxy

lemma findIn_eq_some {t : RbShape} (he : e ∈ inorder t)
    (hhash : (c.entries e).hash = policyCacheHash (c.entries e).key)
    (hexp : now < (c.entries e).expiry) (hnd : (inorder t).Nodup) (hone : OneEach c (inorder t))
    (hsorted : (inorder t).Pairwise fun x y => (c.entries x).hash ≤ (c.entries y).hash) :
    findIn c now (c.entries e).key t = some e := by
  induction t with
  | nil => cases he
  | node cl l a r ihl ihr =>
    rw [inorder, perm_middle.nodup_iff, nodup_cons, mem_append, not_or] at hnd
    rw [inorder, pairwise_append, pairwise_cons] at hsorted
    have hmem : ∀ x, x ∈ inorder (.node cl l a r) ↔ x ∈ inorder l ∨ x = a ∨ x ∈ inorder r := by
      simp [inorder]
    have hne : e ≠ a → (c.entries e).hash ≠ (c.entries a).hash := fun hea hh =>
      hea (hone e he a ((hmem a).mpr (.inr (.inl rfl))) hh)
    rw [findIn, ← hhash]
    rcases (hmem e).mp he with hl | rfl | hr
    · have hea : e ≠ a := fun h => hnd.1.1 (h ▸ hl)
      have hle := hsorted.2.2 e hl a mem_cons_self
      rw [if_pos (hle.lt_of_ne (hne hea))]
      exact ihl hl (nodup_append.mp hnd.2).1
        (hone.of_subset (fun x hx => (hmem x).mpr (.inl hx)) fun _ _ => rfl) hsorted.1
    · rw [if_neg (lt_irrefl _), if_neg (lt_irrefl _), if_pos rfl, if_pos hexp]
    have hea : e ≠ a := fun h => hnd.1.2 (h ▸ hr)
    have hlt := (hsorted.2.1.1 e hr).lt_of_ne (hne hea).symm
    rw [if_neg (by omega), if_pos hlt]
    exact ihr hr (nodup_append.mp hnd.2).2.1
      (hone.of_subset (fun x hx => (hmem x).mpr (.inr (.inr hx))) fun _ _ => rfl) hsorted.2.1.2

def OneCached (c : PolicyCache) : Prop := ∃ nodes order, PolicyOk c nodes order ∧ OneEach c order

lemma OneCached.step (h : OneCached c) (hnew : ∀ c' ∈ op.exec c, NewHash op c') :
    ∃ c', op.exec c = some c' ∧ OneCached c' := by
  obtain ⟨nodes, order, hok, hone⟩ := h
  cases op with
  | insert now k result answer =>
    obtain ⟨c', nodes', kept, hrun, hpre, -, -, hkept, hok'⟩ := hok.insert now k result answer
    have hone' : OneEach c' kept := hone.of_subset (fun e he => hpre.subset he) hkept
    refine ⟨c', hrun, nodes', ?_⟩
    obtain hok' | ⟨e, b, a, -, -, hok', hent⟩ := hok'
    · exact ⟨kept, hok', hone'⟩
    have he : (c'.entries e).hash = policyCacheHash k := by rw [hent]
    have hone1 : ∀ x ∈ e :: kept, (c'.entries x).hash = (c'.entries e).hash → x = e := fun x hx hxe =>
      hnew c' hrun x (hok'.heap.mem_iff.mpr hx) e (hok'.heap.mem_iff.mpr mem_cons_self) (hxe.trans he) he
    refine ⟨e :: kept, hok', fun x hx y hy hxy => ?_⟩
    rcases mem_cons.mp hx with rfl | hx'
    · exact (hone1 y hy hxy.symm).symm
    rcases mem_cons.mp hy with rfl | hy'
    · exact hone1 x hx hxy
    · exact hone' x hx' y hy' hxy
  | lookup now k =>
    obtain ⟨r, c', hrun, hsame, ⟨order', hok', hperm⟩, -⟩ := hok.lookup now k
    exact ⟨c', by rw [CacheOp.exec, hrun]; rfl, nodes, order', hok',
      hone.of_subset (fun e he => hperm.mem_iff.mp he) fun e _ => by rw [hsame.entries]⟩
  | invalidate inode =>
    obtain ⟨c', nodes', hrun, hsame, hok'⟩ := hok.invalidate inode
    exact ⟨c', hrun, nodes', _, hok',
      hone.of_subset (fun e he => (mem_filter.mp he).1) fun e _ => by rw [hsame.entries]⟩
  | flush =>
    obtain ⟨c', hrun, -, hok'⟩ := hok.flush
    exact ⟨c', hrun, [], [], hok', by simp [OneEach]⟩

lemma OneCached.run {ops : List CacheOp} (h : OneCached c) (hnew : NewHashes ops c) :
    ∃ c', policyRun ops c = some c' ∧ OneCached c' := by
  induction ops generalizing c with
  | nil => exact ⟨c, rfl, h⟩
  | cons op ops ih =>
    obtain ⟨c1, hexec, h1⟩ := h.step fun c1 h1 => (hnew c1 h1).1
    obtain ⟨c', hrun, h'⟩ := ih h1 (hnew c1 hexec).2
    exact ⟨c', by rwa [policyRun, hexec], h'⟩

lemma OneCached.lookup (h : OneCached c) (he : e ∈ c.heap) (hexp : now < (c.entries e).expiry) :
    ∃ c', policyCacheLookup now (c.entries e).key c = some ((c.entries e).result, c') := by
  obtain ⟨nodes, order, hok, hone⟩ := h
  have he' : e ∈ order := hok.heap.mem_iff.mp he
  obtain ⟨t, n, ht, -, rfl⟩ := hok.tree
  have hfuel : (inorder t).length < c.fuel := Nat.lt_of_succ_lt hok.fuel_lt
  have hfind := findIn_eq_some (hok.perm.mem_iff.mpr he') (hok.hash e he') hexp ht.nodup
    (hone.of_subset (fun x hx => hok.perm.mem_iff.mp hx) fun _ _ => rfl) hok.sorted
  refine ⟨{ c with lru := (c.lru.del e).addHead e 0, hits := c.hits + 1 }, ?_⟩
  rw [policyCacheLookup, ht.root, policyFind_spec (p := []) ht hfuel, hfind]
  rfl

/-- **A lookup finds every unexpired entry** for its key, the most recent one among them, after every
sequence of calls in which no insertion leaves two entries with the hash of its key. -/
theorem policyRun_fresh {maxEntries : ℕ} (ttl : ℕ) (hmax : 1 ≤ maxEntries) (ops : List CacheOp)
    (hnew : NewHashes ops (policyCacheCreate maxEntries ttl)) :
    ∃ c, policyRun ops (policyCacheCreate maxEntries ttl) = some c ∧ ∀ e ∈ c.heap, ∀ now < (c.entries e).expiry,
        ∃ c', policyCacheLookup now (c.entries e).key c = some ((c.entries e).result, c') := by
  have h0 : OneCached (policyCacheCreate maxEntries ttl) :=
    ⟨[], [], policyOk_create hmax, by simp [OneEach]⟩
  obtain ⟨c, hrun, h⟩ := h0.run hnew
  exact ⟨c, hrun, fun e he now => h.lookup he⟩

theorem policyRun_fresh_small :
    ∃ c, policyRun [.insert 5 ⟨1, 1, 7, 1⟩ 0 (some 8), .insert 6 ⟨2, 1, 7, 1⟩ 1 (some 12)]
        (policyCacheCreate 4 10) = some c ∧
      ∀ e ∈ c.heap, ∀ now < (c.entries e).expiry,
        ∃ c', policyCacheLookup now (c.entries e).key c = some ((c.entries e).result, c') :=
  policyRun_fresh 10 (by decide) _ (by decide +kernel)

/-- An expired entry hides the one that replaces it: the decision is inserted again after the first
entry has expired, the cache holds it, and the lookup finds nothing. -/
theorem expired_entry_hides_new :
    (policyRun [.insert 0 ⟨1, 1, 7, 1⟩ 0 (some 8), .insert 20 ⟨1, 1, 7, 1⟩ 0 (some 12)]
        (policyCacheCreate 4 10)).map (fun c =>
      (c.heap, (c.entries 12).key, (c.entries 12).result, (c.entries 12).expiry,
        (policyCacheLookup 21 ⟨1, 1, 7, 1⟩ c).map Prod.fst)) =
      some ([12, 8], ⟨1, 1, 7, 1⟩, 0, 30, some (-1)) := by
  decide +kernel

end Obelisk
