import Obelisk.Lib.Ring
import Obelisk.Lib.Word
import Obelisk.RbTree.Run

/-!
# Policy cache

The cache of policy decisions in `fs/axiomfs/policy_ipc.c`: entries in a red-black tree ordered by
the hash of their key, and in a list with the least recently used entry last.
-/

namespace Obelisk

open KLib

/-! ## Entries -/

/-- What a decision is about. -/
structure PolicyKey where
  uid : ℕ
  gid : ℕ
  inode : ℕ
  operation : ℕ
  deriving DecidableEq, Repr

def policyCacheHash (k : PolicyKey) : ℕ :=
  let hash := k.uid
  let hash := u64 (hash * 31 + k.gid)
  let hash := u64 (hash * 31 + k.inode)
  u64 (hash * 31 + k.operation)

/-- `struct policy_cache_entry` -/
structure PolicyCacheEntry where
  hash : ℕ
  key : PolicyKey
  result : ℤ
  expiry : ℕ
  deriving DecidableEq, Repr

/-- `struct policy_cache` with the memory of its entries; `heap` are the blocks that `kzalloc` gave
out. -/
structure PolicyCache where
  tree : RbState
  lru : Links ℕ
  count : ℕ
  maxEntries : ℕ
  defaultTtl : ℕ
  hits : ℕ
  misses : ℕ
  entries : ℕ → PolicyCacheEntry
  heap : List ℕ

def policyCacheCreate (maxEntries ttl : ℕ) : PolicyCache where
  tree := rbRoot fun _ => ⟨0, 0, 0⟩
  lru := ⟨fun a => a, fun a => a⟩
  count := 0
  maxEntries := maxEntries
  defaultTtl := ttl
  hits := 0
  misses := 0
  entries := fun _ => ⟨0, ⟨0, 0, 0, 0⟩, 0, 0⟩
  heap := []

namespace PolicyCache

def fuel (c : PolicyCache) : ℕ := c.count + 2

def kzalloc (answer : Option ℕ) (c : PolicyCache) : Option ℕ :=
  answer.filter fun a => a ≠ 0 ∧ a % 4 = 0 ∧ a ∉ c.heap

def drop (e : ℕ) (c : PolicyCache) : Option PolicyCache :=
  (rbErase c.fuel e c.tree).map fun tree =>
    { c with tree := tree, lru := c.lru.del e, heap := c.heap.erase e }

end PolicyCache

def policyFind (c : PolicyCache) (now : ℕ) (k : PolicyKey) : ℕ → ℕ → Option (Option ℕ)
  | 0, _ => none
  | fuel + 1, node =>
    if node ≠ 0 then
      let entry := c.entries node
      if policyCacheHash k < entry.hash then policyFind c now k fuel (c.tree.mem node).left
      else if entry.hash < policyCacheHash k then policyFind c now k fuel (c.tree.mem node).right
      else if entry.key = k then
        -- an expired entry ends the search
        if now < entry.expiry then some (some node) else some none
      else policyFind c now k fuel (c.tree.mem node).right
    else some none

def policyCacheLookup (now : ℕ) (k : PolicyKey) (c : PolicyCache) : Option (ℤ × PolicyCache) :=
  (policyFind c now k c.fuel c.tree.root).map fun
    | some e =>
      ((c.entries e).result, { c with lru := (c.lru.del e).addHead e 0, hits := c.hits + 1 })
    | none => (-1, { c with misses := c.misses + 1 })

def policyEvict : ℕ → PolicyCache → Option PolicyCache
  | 0, _ => none
  | fuel + 1, c =>
    if c.maxEntries ≤ c.count then
      (c.drop (c.lru.prev 0)).bind fun c => policyEvict fuel { c with count := c.count - 1 }
    else some c

def policyPlace (now : ℕ) (k : PolicyKey) (result : ℤ) (e : ℕ) (c : PolicyCache) :
    Option PolicyCache :=
  let entry : PolicyCacheEntry :=
    ⟨policyCacheHash k, k, result, u64 (now + c.defaultTtl)⟩
  let c := { c with entries := Function.update c.entries e entry, heap := e :: c.heap }
  (rbInsert (fun node => entry.hash < (c.entries node).hash) c.fuel e c.tree).map fun tree =>
    { c with tree := tree, lru := c.lru.addHead e 0, count := c.count + 1 }

def policyCacheInsert (now : ℕ) (k : PolicyKey) (result : ℤ) (answer : Option ℕ) (c : PolicyCache) :
    Option PolicyCache :=
  (policyEvict (c.count + 1) c).bind fun c =>
    match c.kzalloc answer with
    | some e => policyPlace now k result e c
    | none => some c

/-- The loop of `policy_cache_invalidate`; the next position is read before the body. -/
def policyInvalidateFrom (inode : ℕ) : ℕ → ℕ → PolicyCache → Option PolicyCache
  | 0, _, _ => none
  | fuel + 1, pos, c =>
    if pos ≠ 0 then
      let next := c.lru.next pos
      if (c.entries pos).key.inode = inode then
        (c.drop pos).bind fun c => policyInvalidateFrom inode fuel next { c with count := c.count - 1 }
      else policyInvalidateFrom inode fuel next c
    else some c

def policyCacheInvalidate (inode : ℕ) (c : PolicyCache) : Option PolicyCache :=
  policyInvalidateFrom inode (c.count + 1) (c.lru.next 0) c

def policyFlushFrom : ℕ → ℕ → PolicyCache → Option PolicyCache
  | 0, _, _ => none
  | fuel + 1, pos, c =>
    if pos ≠ 0 then (c.drop pos).bind fun d => policyFlushFrom fuel (c.lru.next pos) d
    else some c

def policyCacheFlush (c : PolicyCache) : Option PolicyCache :=
  (policyFlushFrom (c.count + 1) (c.lru.next 0) c).map fun c =>
    { c with count := 0, tree := rbRoot c.tree.mem }

/-- A call, with the clock for those that read it and the answer of `kzalloc`. -/
inductive CacheOp
  | insert (now : ℕ) (k : PolicyKey) (result : ℤ) (answer : Option ℕ)
  | lookup (now : ℕ) (k : PolicyKey)
  | invalidate (inode : ℕ)
  | flush
  deriving DecidableEq, Repr

def CacheOp.exec : CacheOp → PolicyCache → Option PolicyCache
  | insert now k result answer, c => policyCacheInsert now k result answer c
  | lookup now k, c => (policyCacheLookup now k c).map Prod.snd
  | invalidate inode, c => policyCacheInvalidate inode c
  | flush, c => policyCacheFlush c

def policyRun : List CacheOp → PolicyCache → Option PolicyCache
  | [], c => some c
  | op :: ops, c => (op.exec c).bind (policyRun ops)

end Obelisk
