import Obelisk.Policy.Cache

/-!
# Policy cache: the tree and the list in step

- `PolicyOk.lookup`, `PolicyOk.insert`: what the calls do to the entries.
-/

namespace Obelisk

open KLib KLib.ColorTree Function List

variable {e fuel now : ℕ} {t : RbShape} {k : PolicyKey}

/-- The tree holds `nodes` in order and the list holds `order`, the same entries; `kzalloc` gave out
their blocks. -/
structure Cached (c : PolicyCache) (nodes order : List ℕ) : Prop where
  tree : IsRbTree c.tree nodes
  lru : Ring c.lru 0 order
  perm : nodes.Perm order
  heap : c.heap.Perm order
  sorted : nodes.Pairwise fun x y => (c.entries x).hash ≤ (c.entries y).hash
  hash : ∀ e ∈ order, (c.entries e).hash = policyCacheHash (c.entries e).key
  bound : order.length ≤ c.count

variable {c : PolicyCache} {nodes order : List ℕ}

lemma Cached.fuel_lt (h : Cached c nodes order) : nodes.length + 1 < c.fuel := by
  have := h.perm.length_eq
  have := h.bound
  unfold PolicyCache.fuel
  omega

/-- Only the order of use has changed. -/
structure SameEntries (c c' : PolicyCache) : Prop where
  entries : c'.entries = c.entries
  ttl : c'.defaultTtl = c.defaultTtl
  max : c'.maxEntries = c.maxEntries

lemma SameEntries.refl (c : PolicyCache) : SameEntries c c := ⟨rfl, rfl, rfl⟩

lemma SameEntries.trans {c c' c'' : PolicyCache} (h : SameEntries c c') (h' : SameEntries c' c'') :
    SameEntries c c'' :=
  ⟨h'.entries.trans h.entries, h'.ttl.trans h.ttl, h'.max.trans h.max⟩

lemma Cached.drop {l1 l2 : List ℕ} (h : Cached c nodes (l1 ++ e :: l2)) :
    ∃ c', c.drop e = some c' ∧ Cached { c' with count := c'.count - 1 } (nodes.erase e) (l1 ++ l2) ∧
      Cached c' (nodes.erase e) (l1 ++ l2) ∧ c'.count = c.count ∧ SameEntries c c' := by
  have he : e ∈ nodes := h.perm.mem_iff.mpr (by simp)
  obtain ⟨tree, htree, hrb⟩ := h.tree.erase he h.fuel_lt
  have hnd : (l1 ++ e :: l2).Nodup := (nodup_cons.mp h.lru.nodup).2
  have herase : (l1 ++ e :: l2).erase e = l1 ++ l2 := by
    rw [perm_middle.nodup_iff, nodup_cons, mem_append, not_or] at hnd
    rw [erase_append_right _ hnd.1.1, erase_cons_head]
  have hsub : l1 ++ l2 ⊆ l1 ++ e :: l2 := by
    rw [← herase]
    exact erase_subset
  have hb := h.bound
  have hcached : ∀ n, l1.length + l2.length ≤ n → Cached
      { c with tree := tree, lru := c.lru.del e, heap := c.heap.erase e, count := n }
      (nodes.erase e) (l1 ++ l2) := fun n hn =>
    { tree := hrb
      lru := h.lru.del
      perm := herase ▸ h.perm.erase e
      heap := herase ▸ h.heap.erase e
      sorted := h.sorted.sublist erase_sublist
      hash := fun x hx => h.hash x (hsub hx)
      bound := by simpa using hn }
  simp only [length_append, length_cons] at hb
  refine ⟨_, by rw [PolicyCache.drop, htree]; rfl, hcached (c.count - 1) (by omega),
    hcached c.count (by omega), rfl, rfl, rfl, rfl⟩

def findIn (c : PolicyCache) (now : ℕ) (k : PolicyKey) : RbShape → Option ℕ
  | .nil => none
  | .node _ l a r =>
    if policyCacheHash k < (c.entries a).hash then findIn c now k l
    else if (c.entries a).hash < policyCacheHash k then findIn c now k r
    else if (c.entries a).key = k then if now < (c.entries a).expiry then some a else none
    else findIn c now k r

lemma policyFind_spec {p : TreePath ℕ}
    (h : HoldsTree c.tree (plug p t)) (hfuel : (inorder t).length < fuel) :
    policyFind c now k fuel (addr t) = some (findIn c now k t) := by
  induction t generalizing p fuel with
  | nil =>
    obtain ⟨fuel, rfl⟩ : ∃ n, fuel = n + 1 := ⟨fuel - 1, by omega⟩
    exact if_neg fun h0 => h0 rfl
  | node cl l a r ihl ihr =>
    obtain ⟨fuel, rfl⟩ : ∃ n, fuel = n + 1 := ⟨fuel - 1, by omega⟩
    obtain ⟨ha, -, hm⟩ := HoldsTree.read (d := .left) h
    simp only [inorder, length_append, length_cons] at hfuel
    have hl : policyFind c now k fuel (addr l) = some (findIn c now k l) :=
      ihl (p := ⟨.left, cl, a, r⟩ :: p) h (by omega)
    have hr : policyFind c now k fuel (addr r) = some (findIn c now k r) :=
      ihr (p := ⟨.right, cl, a, l⟩ :: p) h (by omega)
    have hleft : (c.tree.mem a).left = addr l := by rw [hm]; rfl
    have hright : (c.tree.mem a).right = addr r := by rw [hm]; rfl
    rw [policyFind, addr, if_pos ha.1, findIn, hleft, hright, hl, hr]
    dsimp only
    split_ifs <;> rfl

lemma findIn_some (h : findIn c now k t = some e) :
    e ∈ inorder t ∧ (c.entries e).key = k ∧ now < (c.entries e).expiry := by
  induction t with
  | nil => cases h
  | node cl l a r ihl ihr =>
    simp only [inorder, mem_append, mem_cons]
    rw [findIn] at h
    split_ifs at h with h1 h2 h3 h4
    · exact ⟨.inl (ihl h).1, (ihl h).2⟩
    · exact ⟨.inr (.inr (ihr h).1), (ihr h).2⟩
    · cases h
      exact ⟨.inr (.inl rfl), h3, h4⟩
    · exact ⟨.inr (.inr (ihr h).1), (ihr h).2⟩

lemma Cached.find (h : Cached c nodes order) (now : ℕ) (k : PolicyKey) :
    ∃ r, policyFind c now k c.fuel c.tree.root = some r ∧
      ∀ e ∈ r, e ∈ order ∧ (c.entries e).key = k ∧ now < (c.entries e).expiry := by
  obtain ⟨t, n, ht, hrb, hin⟩ := h.tree
  have hfuel : (inorder t).length < c.fuel := hin ▸ Nat.lt_of_succ_lt h.fuel_lt
  refine ⟨findIn c now k t, ?_, fun e he => ?_⟩
  · rw [ht.root]
    exact policyFind_spec (p := []) ht hfuel
  obtain ⟨hmem, hrest⟩ := findIn_some he
  exact ⟨h.perm.mem_iff.mp (hin ▸ hmem), hrest⟩

/-- The invariant of the cache. -/
structure PolicyOk (c : PolicyCache) (nodes order : List ℕ) : Prop extends Cached c nodes order where
  count : c.count = order.length
  room : c.count ≤ c.maxEntries
  pos : 1 ≤ c.maxEntries

lemma policyOk_create {maxEntries ttl : ℕ} (h : 1 ≤ maxEntries) :
    PolicyOk (policyCacheCreate maxEntries ttl) [] [] where
  tree := .empty _
  lru := ring_nil ⟨rfl, rfl⟩
  perm := .refl _
  heap := .refl _
  sorted := .nil
  hash := by simp
  bound := le_refl _
  count := rfl
  room := Nat.zero_le _
  pos := h

lemma PolicyOk.lookup (h : PolicyOk c nodes order) (now : ℕ) (k : PolicyKey) :
    ∃ r c', policyCacheLookup now k c = some (r, c') ∧ SameEntries c c' ∧
      (∃ order', PolicyOk c' nodes order' ∧ order'.Perm order) ∧
      (r = -1 ∨ ∃ e ∈ order, (c.entries e).key = k ∧ now < (c.entries e).expiry ∧
        r = (c.entries e).result) := by
  obtain ⟨r, hr, hfound⟩ := h.find now k
  cases r with
  | none =>
    have hmiss : policyCacheLookup now k c = some (-1, { c with misses := c.misses + 1 }) := by
      rw [policyCacheLookup, hr]
      rfl
    exact ⟨_, _, hmiss, ⟨rfl, rfl, rfl⟩, ⟨order, { h with }, .refl _⟩, .inl rfl⟩
  | some e =>
    obtain ⟨he, hkey, hexp⟩ := hfound e rfl
    have hhit : policyCacheLookup now k c = some ((c.entries e).result,
        { c with lru := (c.lru.del e).addHead e 0, hits := c.hits + 1 }) := by
      rw [policyCacheLookup, hr]
      rfl
    refine ⟨_, _, hhit, ⟨rfl, rfl, rfl⟩, ?_, .inr ⟨e, he, hkey, hexp, rfl⟩⟩
    obtain ⟨l1, l2, rfl⟩ := append_of_mem he
    have hnd := h.lru.nodup
    have hring : Ring ((c.lru.del e).addHead e 0) 0 (e :: (l1 ++ l2)) := by
      refine h.lru.del.addHead ?_
      rw [nodup_cons, perm_middle.nodup_iff, nodup_cons] at hnd
      simp only [mem_append, mem_cons, not_or] at hnd ⊢
      exact ⟨Ne.symm hnd.1.2.1, hnd.2.1⟩
    have hperm : (e :: (l1 ++ l2)).Perm (l1 ++ e :: l2) := perm_middle.symm
    refine ⟨_, { h with
      lru := hring
      perm := h.perm.trans hperm.symm
      heap := h.heap.trans hperm.symm
      hash := fun x hx => h.hash x (hperm.mem_iff.mp hx)
      bound := hperm.length_eq ▸ h.bound
      count := hperm.length_eq ▸ h.count }, hperm⟩

lemma Cached.evict (h : Cached c nodes order) (hc : c.count = order.length) (hpos : 1 ≤ c.maxEntries)
    (hfuel : c.count < fuel) :
    ∃ c' nodes' order', policyEvict fuel c = some c' ∧ SameEntries c c' ∧ PolicyOk c' nodes' order' ∧
      c'.count < c'.maxEntries ∧ order' <+: order ∧ nodes'.Sublist nodes := by
  induction fuel generalizing c nodes order with
  | zero => omega
  | succ fuel ih =>
    rw [policyEvict]
    by_cases hfull : c.maxEntries ≤ c.count
    · rcases eq_nil_or_concat order with rfl | ⟨l, e, rfl⟩
      · simp only [length_nil] at hc
        omega
      · rw [concat_eq_append] at h hc ⊢
        obtain ⟨c', hdrop, hcached, -, hcount, hsame⟩ := h.drop
        rw [append_nil] at hcached
        rw [if_pos hfull, h.lru.last, hdrop]
        obtain ⟨c'', nodes', order', hev, hsame', hok, hlt, hpre, hsub⟩ := ih hcached
          (by simp [hcount, hc]) (hsame.max.symm ▸ hpos) (by simp only [hcount]; omega)
        exact ⟨c'', nodes', order', hev, hsame.trans ⟨hsame'.entries, hsame'.ttl, hsame'.max⟩, hok, hlt,
          hpre.trans (prefix_append ..), hsub.trans erase_sublist⟩
    rw [if_neg hfull]
    exact ⟨c, nodes, order, rfl, .refl c, ⟨h, hc, by omega, hpos⟩, by omega, prefix_refl _, List.Sublist.refl _⟩

lemma PolicyOk.place (h : PolicyOk c nodes order) (hroom : c.count < c.maxEntries)
    (he : IsNode e) (hnew : e ∉ order) (now : ℕ) (k : PolicyKey) (result : ℤ) :
    ∃ c' b a, policyPlace now k result e c = some c' ∧ PolicyOk c' (b ++ e :: a) (e :: order) ∧
      nodes = b ++ a ∧ c'.defaultTtl = c.defaultTtl ∧ c'.maxEntries = c.maxEntries ∧
      c'.entries = update c.entries e
        ⟨policyCacheHash k, k, result, u64 (now + c.defaultTtl)⟩ := by
  generalize hentry : (⟨policyCacheHash k, k, result, u64 (now + c.defaultTtl)⟩ : PolicyCacheEntry) = entry
  have hhash : entry.hash = policyCacheHash entry.key := by rw [← hentry]
  have hen : e ∉ nodes := fun hm => hnew (h.perm.mem_iff.mp hm)
  have hold : ∀ x ∈ nodes, update c.entries e entry x = c.entries x := fun x hx => by
    have hxe : x ≠ e := fun hxe => hen (hxe ▸ hx)
    exact update_of_ne hxe _ _
  have hord : nodes.Pairwise fun x y =>
      decide (entry.hash < (update c.entries e entry x).hash) = true →
      decide (entry.hash < (update c.entries e entry y).hash) = true := by
    refine h.sorted.imp_of_mem fun {x y} hx hy hxy hlt => ?_
    rw [hold x hx, decide_eq_true_eq] at hlt
    rw [hold y hy, decide_eq_true_eq]
    omega
  obtain ⟨tree, b, a, htree, hrb, rfl, hb, ha⟩ := h.tree.insert he hen hord h.fuel_lt
  have hplace : policyPlace now k result e c = some { c with
      tree := tree, lru := c.lru.addHead e 0, count := c.count + 1
      entries := update c.entries e entry, heap := e :: c.heap } := by
    rw [policyPlace, hentry]
    exact congrArg (Option.map _) htree
  have hself : (update c.entries e entry e) = entry := update_self ..
  have h0 : e ∉ 0 :: order := by simp [he.1, hnew]
  have hsorted : (b ++ e :: a).Pairwise fun x y => (update c.entries e entry x).hash ≤
      (update c.entries e entry y).hash := by
    have hs : (b ++ a).Pairwise fun x y => (update c.entries e entry x).hash ≤
        (update c.entries e entry y).hash :=
      h.sorted.imp_of_mem fun {x y} hx hy hxy => by rwa [hold x hx, hold y hy]
    simp only [decide_eq_true_eq, not_lt] at hb ha
    rw [pairwise_append] at hs ⊢
    rw [pairwise_cons, hself]
    refine ⟨hs.1, ⟨fun x hx => le_of_lt (ha x hx), hs.2.1⟩, fun x hx y hy => ?_⟩
    obtain rfl | hy := mem_cons.mp hy
    · rw [hself]
      exact hb x hx
    · exact hs.2.2 x hx y hy
  have hhashes : ∀ x ∈ e :: order, (update c.entries e entry x).hash =
      policyCacheHash (update c.entries e entry x).key := by
    intro x hx
    obtain rfl | hx := mem_cons.mp hx
    · rw [hself, hhash]
    rw [hold x (h.perm.mem_iff.mpr hx)]
    exact h.hash x hx
  refine ⟨_, b, a, hplace, ?_, rfl, rfl, rfl, rfl⟩
  exact
    { tree := hrb
      lru := h.lru.addHead h0
      perm := perm_middle.trans (h.perm.cons e)
      heap := h.heap.cons e
      sorted := hsorted
      hash := hhashes
      bound := Nat.succ_le_succ h.bound
      count := congrArg (· + 1) h.count
      room := hroom
      pos := h.pos }

lemma kzalloc_spec {answer : Option ℕ} (h : Cached c nodes order)
    (he : c.kzalloc answer = some e) : IsNode e ∧ e ∉ order := by
  rw [PolicyCache.kzalloc, Option.filter_eq_some_iff, decide_eq_true_eq] at he
  exact ⟨⟨he.2.1, Nat.dvd_of_mod_eq_zero he.2.2.1⟩, fun hm => he.2.2.2 (h.heap.mem_iff.mpr hm)⟩

lemma Cached.invalidateFrom {inode fuel : ℕ} {done rest : List ℕ}
    (h : Cached c nodes (done ++ rest)) (hc : c.count = (done ++ rest).length)
    (hfuel : rest.length < fuel) :
    ∃ c' nodes', policyInvalidateFrom inode fuel (rest.headD 0) c = some c' ∧ SameEntries c c' ∧
      Cached c' nodes' (done ++ rest.filter fun e => (c.entries e).key.inode ≠ inode) ∧
      c'.count = (done ++ rest.filter fun e => (c.entries e).key.inode ≠ inode).length := by
  induction rest generalizing c nodes done fuel with
  | nil =>
    obtain ⟨fuel, rfl⟩ : ∃ n, fuel = n + 1 := ⟨fuel - 1, by omega⟩
    exact ⟨c, nodes, if_neg fun h0 => h0 rfl, .refl c, h, hc⟩
  | cons e rest ih =>
    obtain ⟨fuel, rfl⟩ : ∃ n, fuel = n + 1 := ⟨fuel - 1, by omega⟩
    simp only [length_cons, Nat.succ_lt_succ_iff] at hfuel
    have he : e ≠ 0 := fun h0 => (nodup_cons.mp h.lru.nodup).1 (by simp [h0])
    rw [policyInvalidateFrom, headD_cons, if_pos he, h.lru.next_eq]
    dsimp only
    by_cases hi : (c.entries e).key.inode = inode
    · obtain ⟨c1, hdrop, hcached, -, hcount, hsame⟩ := h.drop
      obtain ⟨c', nodes', hrun, hsame', hok, hcount'⟩ := ih hcached
        (by simp only [hcount, hc, length_append, length_cons]; omega) hfuel
      rw [if_pos hi, hdrop, filter_cons_of_neg (by simp [hi])]
      simp only [hsame.entries] at hok hcount'
      exact ⟨c', nodes', hrun, hsame.trans ⟨hsame'.entries, hsame'.ttl, hsame'.max⟩, hok, hcount'⟩
    rw [if_neg hi, filter_cons_of_pos (by simp [hi])]
    rw [append_cons] at h hc ⊢
    exact ih h hc hfuel

lemma Cached.flushFrom (h : Cached c nodes order) (hfuel : order.length < fuel) :
    ∃ c', policyFlushFrom fuel (order.headD 0) c = some c' ∧ SameEntries c c' ∧ Cached c' [] [] := by
  induction order generalizing c nodes fuel with
  | nil =>
    obtain ⟨fuel, rfl⟩ : ∃ n, fuel = n + 1 := ⟨fuel - 1, by omega⟩
    have hnil := h.perm.eq_nil
    exact ⟨c, if_neg fun h0 => h0 rfl, .refl c, hnil ▸ h⟩
  | cons e rest ih =>
    obtain ⟨fuel, rfl⟩ : ∃ n, fuel = n + 1 := ⟨fuel - 1, by omega⟩
    simp only [length_cons, Nat.succ_lt_succ_iff] at hfuel
    have he : e ≠ 0 := fun h0 => (nodup_cons.mp h.lru.nodup).1 (by simp [h0])
    have hnext : c.lru.next e = rest.headD 0 := by
      rw [← nil_append (e :: rest)] at h
      exact Ring.next_eq h.lru
    obtain ⟨c1, hdrop, -, hcached, -, hsame⟩ := Cached.drop (show Cached c nodes ([] ++ e :: rest) from h)
    obtain ⟨c', hrun, hsame', hok⟩ := ih hcached hfuel
    rw [policyFlushFrom, headD_cons, if_pos he, hnext, hdrop]
    exact ⟨c', hrun, hsame.trans hsame', hok⟩

lemma PolicyOk.insert (h : PolicyOk c nodes order) (now : ℕ) (k : PolicyKey) (result : ℤ) (answer : Option ℕ) :
    ∃ c' nodes' kept, policyCacheInsert now k result answer c = some c' ∧ kept <+: order ∧
      c'.defaultTtl = c.defaultTtl ∧ c'.maxEntries = c.maxEntries ∧
      (∀ e ∈ kept, c'.entries e = c.entries e) ∧
      (PolicyOk c' nodes' kept ∨ ∃ e b a, nodes' = b ++ e :: a ∧ (b ++ a).Sublist nodes ∧
        PolicyOk c' nodes' (e :: kept) ∧
        c'.entries e = ⟨policyCacheHash k, k, result, u64 (now + c.defaultTtl)⟩) := by
  obtain ⟨c1, nodes1, kept, hev, hsame, hok, hlt, hpre, hsub⟩ :=
    h.evict h.count h.pos (lt_add_one _)
  rw [policyCacheInsert, hev, Option.bind_some]
  cases halloc : c1.kzalloc answer with
  | none => exact ⟨c1, nodes1, kept, rfl, hpre, hsame.ttl, hsame.max, fun e _ => by rw [hsame.entries], .inl hok⟩
  | some e =>
    obtain ⟨hnode, hnew⟩ := kzalloc_spec hok.toCached halloc
    obtain ⟨c', b, a, hplace, hok', rfl, httl, hmax, hent⟩ := hok.place hlt hnode hnew now k result
    refine ⟨c', _, kept, hplace, hpre, httl.trans hsame.ttl, hmax.trans hsame.max, fun x hx => ?_,
      .inr ⟨e, b, a, rfl, hsub, hok', ?_⟩⟩
    · have hxe : x ≠ e := fun hxe => hnew (hxe ▸ hx)
      rw [hent, update_of_ne hxe, hsame.entries]
    · rw [hent, update_self, hsame.ttl]

lemma PolicyOk.invalidate (h : PolicyOk c nodes order) (inode : ℕ) :
    ∃ c' nodes', policyCacheInvalidate inode c = some c' ∧ SameEntries c c' ∧
      PolicyOk c' nodes' (order.filter fun e => (c.entries e).key.inode ≠ inode) := by
  have hfuel : order.length < c.count + 1 := by
    rw [h.count]
    exact lt_add_one _
  obtain ⟨c', nodes', hrun, hsame, hok, hcount⟩ :=
    @Cached.invalidateFrom c nodes inode (c.count + 1) [] order h.toCached h.count hfuel
  refine ⟨c', nodes', ?_, hsame, hok, hcount, ?_, hsame.max ▸ h.pos⟩
  · rwa [policyCacheInvalidate, h.lru.next_head]
  have hle := length_filter_le (fun e => decide ((c.entries e).key.inode ≠ inode)) order
  have := h.room
  have := h.count
  rw [hcount, hsame.max, nil_append]
  omega

lemma PolicyOk.flush (h : PolicyOk c nodes order) :
    ∃ c', policyCacheFlush c = some c' ∧ SameEntries c c' ∧ PolicyOk c' [] [] := by
  have hfuel : order.length < c.count + 1 := by
    rw [h.count]
    exact lt_add_one _
  obtain ⟨c', hrun, hsame, hok⟩ := Cached.flushFrom h.toCached hfuel
  have hflush : policyCacheFlush c = some { c' with count := 0, tree := rbRoot c'.tree.mem } := by
    rw [policyCacheFlush, h.lru.next_head, hrun]
    rfl
  refine ⟨_, hflush, ⟨hsame.entries, hsame.ttl, hsame.max⟩, ?_⟩
  exact { hok with
    tree := .empty _
    bound := le_refl _
    count := rfl
    room := Nat.zero_le _
    pos := hsame.max ▸ h.pos }

end Obelisk
