import Obelisk.Lib.Reads
import Obelisk.Lib.Text

/-!
# The DNS exchange of `curl` and `nslookup`

`dns_encode_name`, the packet around it and the parser of the reply, which the two programs repeat. A
return before the exchange touches neither buffer.
-/

namespace Obelisk.Dns

open KLib List Reads

/-- The stores of `bytes` from index `i` on. -/
def store (i : ℕ) (bytes : Bytes) : List (UInt8 × ℕ) := bytes.zipIdx i

/-- The loop of `dns_encode_name`, with the label read so far: its stores, and `oi` behind the last
label unless a label is refused. -/
def encodeLoop (cap oi : ℕ) (label : Bytes) : Bytes → List (UInt8 × ℕ) × Option ℕ
  | [] =>
    if label = [] ∨ 63 < label.length ∨ cap ≤ oi + 1 + label.length then ([], none)
    else (store oi (.ofNat label.length :: label), some (oi + 1 + label.length))
  | c :: name =>
    if c ≠ 46 then encodeLoop cap oi (label ++ [c]) name
    else if label = [] ∨ 63 < label.length ∨ cap ≤ oi + 1 + label.length then ([], none)
    else
      let r := encodeLoop cap (oi + 1 + label.length) [] name
      (store oi (.ofNat label.length :: label) ++ r.1, r.2)

/-- `none` is the result `0`; only `nslookup` makes the last check. -/
def dnsEncodeName (check : Bool) (cap : ℕ) (name : Bytes) : List (UInt8 × ℕ) × Option ℕ :=
  match encodeLoop cap 0 [] (cstr name) with
  | (stores, none) => (stores, none)
  | (stores, some oi) =>
    if check ∧ cap ≤ oi then (stores, none) else (stores ++ store oi [0], some (oi + 1))

/-- The stores into `pkt[512]`; the two programs differ in `id`. -/
def query (id : Bytes) (check : Bool) (host : Bytes) : List (UInt8 × ℕ) :=
  let r := dnsEncodeName check (512 - 12) host
  store 0 (id.take 2 ++ [1, 0, 0, 1, 0, 0, 0, 0, 0, 0]) ++ r.1.map (fun w => (w.1, 12 + w.2)) ++ match r.2 with
    | none => []
    | some w => store (12 + w) [0, 1, 0, 1]

def word (i : ℕ) : Reads Unit ℕ := do
  let hi ← byte () i
  let lo ← byte () (i + 1)
  pure (hi.toNat * 256 + lo.toNat)

def skipName (n ri : ℕ) : Reads Unit ℕ :=
  if ri < n then do
    let c ← byte () ri
    if c = 0 then pure ri else skipName n (ri + (c.toNat + 1))
  else pure ri
termination_by n - ri

def skipQuestions (n : ℕ) : ℕ → ℕ → Reads Unit ℕ
  | 0, ri => pure ri
  | qd + 1, ri => do
    let ri ← skipName n ri
    skipQuestions n qd (ri + 1 + 4)

/-- The index behind the name of an answer. -/
def skipOwner (n ri : ℕ) : Reads Unit ℕ := do
  let c ← byte () ri
  -- a pointer has the bits `0xC0`
  if 192 ≤ c then pure (ri + 2)
  else do
    let stop ← skipName n ri
    pure (stop + 1)

def answers (n : ℕ) : ℕ → ℕ → Reads Unit (Option Bytes)
  | 0, _ => pure none
  | an + 1, ri =>
    if n < ri + 12 then pure none
    else do
      let ri ← skipOwner n ri
      if n < ri + 10 then pure none
      else do
        let type ← word ri
        let classv ← word (ri + 2)
        let rdlen ← word (ri + 8)
        let ri := ri + 10
        if n < ri + rdlen then pure none
        else if type = 1 ∧ classv = 1 ∧ rdlen = 4 then do
          let ip ← bytes () ri 4
          pure (some ip)
        else answers n an (ri + rdlen)

/-- What follows `recvfrom` with result `n`. -/
def parseReply (n : ℕ) : Reads Unit (Option Bytes) :=
  if n < 12 then pure none
  else do
    let qd ← word 4
    let an ← word 6
    let ri ← skipQuestions n qd 12
    answers n an ri

variable {cap n i k : ℕ} {mem : ℕ → UInt8}

lemma store_lt {bytes : Bytes} : (∀ w ∈ store i bytes, w.2 < k) ↔ bytes = [] ∨ i + bytes.length ≤ k := by
  rw [store]
  induction bytes generalizing i with
  | nil => simp
  | cons b bytes ih =>
    have hnil : bytes = [] ↔ bytes.length = 0 := length_eq_zero_iff.symm
    rw [zipIdx_cons, forall_mem_cons, ih, length_cons, hnil]
    simp only [reduceCtorEq, false_or]
    omega

lemma encodeLoop_spec (name : Bytes) (oi : ℕ) (label : Bytes) :
    let r := encodeLoop cap oi label name
    (∀ w ∈ r.1, w.2 < cap) ∧ ∀ m ∈ r.2, m = oi + label.length + name.length + 1 ∧ m < cap := by
  induction name generalizing oi label with
  | nil =>
    dsimp only [encodeLoop]
    split_ifs with h
    · simp
    refine ⟨store_lt.mpr (.inr (by rw [length_cons]; omega)), fun m hm => ?_⟩
    cases hm
    rw [length_nil]
    omega
  | cons c name ih =>
    dsimp only [encodeLoop]
    split_ifs with hc h
    · obtain ⟨hlt, hend⟩ := ih oi (label ++ [c])
      refine ⟨hlt, fun m hm => ?_⟩
      have := hend m hm
      rw [length_append, length_singleton] at this
      rw [length_cons]
      omega
    · simp
    obtain ⟨hlt, hend⟩ := ih (oi + 1 + label.length) []
    refine ⟨forall_mem_append.mpr ⟨store_lt.mpr (.inr (by rw [length_cons]; omega)), hlt⟩, fun m hm => ?_⟩
    have := hend m hm
    rw [length_nil] at this
    rw [length_cons]
    omega

lemma dnsEncodeName_spec (check : Bool) (cap : ℕ) (name : Bytes) :
    let r := dnsEncodeName check cap name
    (∀ w ∈ r.1, w.2 < cap) ∧ ∀ m ∈ r.2, m = (cstr name).length + 2 := by
  obtain ⟨hlt, hend⟩ := @encodeLoop_spec cap (cstr name) 0 []
  rw [dnsEncodeName]
  cases hr : encodeLoop cap 0 [] (cstr name) with
  | mk stores r =>
    rw [hr] at hlt hend
    cases r with
    | none => exact ⟨hlt, fun m hm => nomatch hm⟩
    | some m =>
      have hm := hend m rfl
      rw [length_nil] at hm
      dsimp only
      rw [if_neg fun h => absurd h.2 (by omega)]
      refine ⟨forall_mem_append.mpr ⟨hlt, store_lt.mpr (.inr (by rw [length_singleton]; omega))⟩, ?_⟩
      intro m' hm'
      cases hm'
      omega

lemma query_inside_iff (id : Bytes) (check : Bool) (host : Bytes) : (∀ w ∈ query id check host, w.2 < 512) ↔
      (dnsEncodeName check 500 host).2 = none ∨ (cstr host).length ≤ 494 := by
  obtain ⟨hlt, hend⟩ := dnsEncodeName_spec check 500 host
  have hheader : ∀ w ∈ store 0 (id.take 2 ++ [1, 0, 0, 1, 0, 0, 0, 0, 0, 0]), w.2 < 512 := by
    refine store_lt.mpr (.inr ?_)
    simp only [length_append, length_take, length_cons, length_nil]
    omega
  have hname : ∀ w ∈ (dnsEncodeName check 500 host).1.map (fun w => (w.1, 12 + w.2)), w.2 < 512 := by
    rw [forall_mem_map]
    intro w hw
    have := hlt w hw
    omega
  rw [query, forall_mem_append, forall_mem_append, and_iff_right ⟨hheader, hname⟩]
  cases hr : (dnsEncodeName check 500 host).2 with
  | none => simp
  | some m =>
    have := hend m hr
    rw [store_lt]
    simp
    omega

lemma within_word (h : i + 1 < n) : Within (fun _ j => j < n) (word i) mem := by
  simp only [word, within_bind, within_byte, within_pure, and_true]
  omega

lemma within_skipName (n ri : ℕ) : Within (fun _ j => j < n) (skipName n ri) mem := by
  induction hk : n - ri using Nat.strong_induction_on generalizing ri with
  | _ k ih =>
    rw [skipName, within_ite]
    refine ⟨fun hlt => ?_, fun _ => within_pure _⟩
    simp only [within_bind, within_byte, within_ite, within_pure, implies_true, true_and]
    exact ⟨hlt, fun _ => ih _ (by omega) _ rfl⟩

lemma within_skipQuestions (qd ri : ℕ) :
    Within (fun _ j => j < n) (skipQuestions n qd ri) mem := by
  induction qd generalizing ri with
  | zero => exact within_pure _
  | succ qd ih =>
    rw [skipQuestions, within_bind]
    exact ⟨within_skipName n ri, ih _⟩

lemma within_answers (an ri : ℕ) : Within (fun _ j => j < n) (answers n an ri) mem := by
  induction an generalizing ri with
  | zero => exact within_pure _
  | succ an ih =>
    simp only [answers, skipOwner, within_ite, within_bind, within_byte, within_bytes, within_pure,
      implies_true, true_and, and_true]
    intro hlen
    refine ⟨⟨by omega, fun _ => within_skipName n ri⟩, fun hfix => ?_⟩
    refine ⟨within_word (by omega), within_word (by omega), within_word (by omega), fun hdata => ?_⟩
    refine ⟨fun hip j hj => ?_, fun _ => ih _⟩
    have := hip.2.2
    omega

/-- **The exchange stays in its buffers** exactly if the name is refused or shorter than 495 bytes: the
four bytes behind a longer one are stored past `pkt`. The reply is read inside its length. -/
theorem exchange_inside_iff (id : Bytes) (check : Bool) (host reply : Bytes) :
    ((∀ w ∈ query id check host, w.2 < 512) ∧
      Within (fun _ i => i < reply.length) (parseReply reply.length) fun i => reply.getD i 0) ↔
    (dnsEncodeName check 500 host).2 = none ∨ (cstr host).length ≤ 494 := by
  rw [query_inside_iff, and_iff_left]
  rw [parseReply, within_ite]
  refine ⟨fun _ => within_pure _, fun hlen => ?_⟩
  simp only [within_bind]
  exact ⟨within_word (by omega), within_word (by omega), within_skipQuestions _ _, within_answers _ _⟩

theorem query_long_overflows : (1, 512) ∈ query [0x12, 0x34] true
    ((replicate 7 (replicate 63 97 ++ [46])).flatten ++ replicate 47 97) := by
  decide +kernel

end Obelisk.Dns
