import Mathlib.Data.List.Induction
import Mathlib.Data.List.TakeDrop
import Obelisk.Lib.Run
import Obelisk.Policy.Channel
import Obelisk.Policy.Invariant

/-!
# Policy queries: answers and their queries

- `policyStep_move`: every step is one of the moves of the protocol.
- `policy_run_safe`: no task ever takes the answer to another query.
- `policy_run_matched`: with one query under way at a time, every answer reaches its task.
-/

namespace Obelisk

open KLib Function List PolicyOp PolicySys Option

variable {op : PolicyOp} {s : PolicySys} {k : PolicyKey} {result : ℤ} {c : PolicyCache} {pid : ℕ}

/-- The system with the history of its queries and answers. -/
structure PolicyWatch where
  sys : PolicySys
  sent : List PolicyQuery
  answers : List ℤ
  /-- the number of the query that the task waits for -/
  number : ℕ → ℕ
  /-- the answers that were put in the cache, and when -/
  stored : List (ℕ × ℕ)

def PolicyWatch.boot (cache : Option PolicyCache) : PolicyWatch := ⟨.boot cache, [], [], fun _ => 0, []⟩

def PolicyWatch.note (w : PolicyWatch) (s : PolicySys) : PolicyOp → Option CheckState → PolicyWatch
  | .check pid k _, some .waiting =>
    { w with
      sys := s
      sent := w.sent ++ [⟨w.sys.nextQueryId, k⟩]
      number := update w.number pid w.sent.length }
  | .round pid _, some (.answered _) =>
    { w with sys := s, stored := (w.number pid, w.sys.ticks) :: w.stored }
  | .answer result _, _ =>
    if s.inHand.length < w.sys.inHand.length then
      { w with sys := s, answers := w.answers ++ [result] }
    else { w with sys := s }
  | _, _ => { w with sys := s }

def policyStep (op : PolicyOp) (w : PolicyWatch) : Option CheckState × PolicyWatch :=
  ((op.exec w.sys).1, w.note (op.exec w.sys).2 op (op.exec w.sys).1)

lemma policyStep_eq {w : PolicyWatch} {r : Option CheckState}
    (h : op.exec w.sys = (r, s)) : policyStep op w = (r, w.note s op r) := by
  rw [policyStep, h]

def PolicyWatch.Stored (w : PolicyWatch) (k : PolicyKey) (result : ℤ) (t0 : ℕ) : Prop :=
  ∃ i, (i, t0) ∈ w.stored ∧ w.answers[i]? = some result ∧ ∃ q, w.sent[i]? = some q ∧ q.key = k

/-- What a step has to return. A task whose query is answered gets the answer, and only that one; and
a decision from the cache is an answer for the same key that has not expired. -/
def Matched (ttl : ℕ) (op : PolicyOp) (w : PolicyWatch) : Prop :=
  match op with
  | .round pid _ => w.sys.waits pid ≠ none → ∀ result,
      (policyStep op w).1 = some (.answered result) ↔ w.answers[w.number pid]? = some result
  | .check _ k _ => ∀ result, (policyStep op w).1 = some (.cached result) →
      ∃ t0, w.Stored k result t0 ∧ w.sys.ticks < t0 + ttl
  | _ => True

/-- A call that asks the daemon finds the queues and the daemon's hands empty, and a round that finds
an answer is made before the time-out. -/
def OneAtATime (op : PolicyOp) (w : PolicyWatch) : Prop :=
  match op with
  | .check _ k _ => (w.sys.lookup k).1 < 0 → w.sys.daemonAvailable → w.sys.connected →
      w.sys.toDaemon.messages = [] ∧ w.sys.inHand = [] ∧ w.sys.toKernel.messages = []
  | .round pid _ => ∀ wait ∈ w.sys.waits pid, w.sys.toKernel.messages ≠ [] →
      u64Sub w.sys.ticks wait.start < policyTimeoutMs
  | _ => True

def queryMessage (q : PolicyQuery) : IpcMessage PolicyQuery := ⟨axiomdMsgQuery, sizeofPolicyQuery, q⟩

def responseMessage (q : PolicyQuery) (result : ℤ) : IpcMessage PolicyResponse :=
  ⟨axiomdMsgResponse, sizeofPolicyResponse, ⟨q.queryId, result⟩⟩

def CacheGenuine (ttl : ℕ) (w : PolicyWatch) (c : PolicyCache) : Prop :=
  c.defaultTtl = ttl ∧ ∃ nodes order, PolicyOk c nodes order ∧ ∀ e ∈ order,
    ∃ t0, w.Stored (c.entries e).key (c.entries e).result t0 ∧ (c.entries e).expiry = u64 (t0 + ttl)

/-- Queries and answers pass in order: the queries that are sent are those answered, those in the
daemon's hands and those in the queue, and the answers in the queue are the last ones. -/
def Flow (w : PolicyWatch) : Prop :=
  ∃ done qs gone replies, w.sent = done ++ (w.sys.inHand ++ qs) ∧ done.length = w.answers.length ∧
    w.sys.toDaemon.messages = qs.map queryMessage ∧ done.zip w.answers = gone ++ replies ∧
    w.sys.toKernel.messages = replies.map fun x => responseMessage x.1 x.2

/-- What every run keeps. -/
structure PolicyInv (ttl : ℕ) (w : PolicyWatch) : Prop where
  cache : ∀ c ∈ w.sys.cache, CacheGenuine ttl w c
  flow : Flow w
  wait : ∀ pid wait, w.sys.waits pid = some wait → w.sent[w.number pid]? = some wait.query

variable {ttl : ℕ} {w w' : PolicyWatch}

lemma getElem?_of_prefix {α : Type*} {l l' : List α} {i : ℕ} {x : α} (h : l <+: l')
    (hx : l[i]? = some x) : l'[i]? = some x := by
  obtain ⟨hi, rfl⟩ := List.getElem?_eq_some_iff.mp hx
  exact prefix_iff_getElem?.mp h i hi

/-- The history only grows. -/
structure PolicyWatch.Grows (w w' : PolicyWatch) : Prop where
  sent : w.sent <+: w'.sent
  answers : w.answers <+: w'.answers
  stored : w.stored ⊆ w'.stored

lemma PolicyWatch.Stored.mono {t0 : ℕ} (h : w.Stored k result t0)
    (hg : w.Grows w') : w'.Stored k result t0 := by
  obtain ⟨i, hi, hr, q, hq, hk⟩ := h
  exact ⟨i, hg.stored hi, getElem?_of_prefix hg.answers hr, q, getElem?_of_prefix hg.sent hq, hk⟩

lemma CacheGenuine.mono (h : CacheGenuine ttl w c) (hg : w.Grows w') :
    CacheGenuine ttl w' c := by
  obtain ⟨httl, nodes, order, hok, hent⟩ := h
  refine ⟨httl, nodes, order, hok, fun e he => ?_⟩
  obtain ⟨t0, hs, hexp⟩ := hent e he
  exact ⟨t0, hs.mono hg, hexp⟩

lemma lookup_frame (s : PolicySys) (k : PolicyKey) :
    (s.lookup k).2 = { s with cache := (s.lookup k).2.cache } := by
  rw [PolicySys.lookup]
  split <;> rfl

lemma lookup_genuine (hc : ∀ c ∈ s.cache, CacheGenuine ttl w c) (k : PolicyKey) :
    (∀ c ∈ (s.lookup k).2.cache, CacheGenuine ttl w c) ∧
      (0 ≤ (s.lookup k).1 → ∃ t0, w.Stored k (s.lookup k).1 t0 ∧ s.ticks < t0 + ttl) := by
  cases hs : s.cache with
  | none => simp [PolicySys.lookup, hs]
  | some c =>
    obtain ⟨httl, nodes, order, hok, hent⟩ := hc c hs
    obtain ⟨r, c', hlook, hsame, ⟨order', hok', hperm⟩, hr⟩ := hok.lookup s.ticks k
    simp only [PolicySys.lookup, hs, hlook, getD_some]
    refine ⟨?_, fun hr0 => ?_⟩
    · rintro _ ⟨⟩
      refine ⟨hsame.ttl.trans httl, nodes, order', hok', fun e he => ?_⟩
      rw [hsame.entries]
      exact hent e (hperm.mem_iff.mp he)
    obtain rfl | ⟨e, he, rfl, hexp, rfl⟩ := hr
    · omega
    obtain ⟨t0, hst, hexp'⟩ := hent e he
    rw [hexp'] at hexp
    exact ⟨t0, hst, lt_of_lt_of_le hexp (Nat.mod_le ..)⟩

lemma insert_genuine (kzalloc : Option ℕ)
    (hc : ∀ c ∈ s.cache, CacheGenuine ttl w c) (hs : w.Stored k result s.ticks) :
    ∀ c ∈ (s.insert k result kzalloc).cache, CacheGenuine ttl w c := by
  intro c' hc'
  cases hcache : s.cache with
  | none => simp [PolicySys.insert, hcache] at hc'
  | some c =>
    obtain ⟨httl, nodes, order, hok, hent⟩ := hc c hcache
    obtain ⟨c1, nodes1, kept, hins, hpre, httl1, -, hkept, hok1⟩ := hok.insert s.ticks k result kzalloc
    simp only [PolicySys.insert, hcache, map_some, hins, getD_some, mem_some_iff] at hc'
    subst hc'
    have hold : ∀ e ∈ kept, ∃ t0, w.Stored (c1.entries e).key (c1.entries e).result t0 ∧
        (c1.entries e).expiry = u64 (t0 + ttl) := fun e he => by
      rw [hkept e he]
      exact hent e (hpre.subset he)
    refine ⟨httl1.trans httl, nodes1, ?_⟩
    obtain hok1 | ⟨e, b, a, -, -, hok1, hnew⟩ := hok1
    · exact ⟨kept, hok1, hold⟩
    refine ⟨e :: kept, hok1, fun x hx => ?_⟩
    obtain rfl | hx := mem_cons.mp hx
    · rw [hnew, httl]
      exact ⟨s.ticks, hs, rfl⟩
    · exact hold x hx

section Queue

variable {α : Type*} {queue queue' : IpcQueue α} {m : IpcMessage α} {rest : List (IpcMessage α)}
  {size type : ℕ} {kmalloc : Bool}

lemma msgqueueRecv_nil (h : queue.messages = []) : msgqueueRecv size type queue = .error .eAgain := by
  rw [msgqueueRecv, h]
  rfl

lemma msgqueueRecv_cons (h : queue.messages = m :: rest) (ht : m.type = type) (hs : m.size ≤ size) :
    msgqueueRecv size type queue = .ok (m.payload, { queue with
      messages := rest, currentMessages := queue.currentMessages - 1 }) := by
  have hspan : queue.messages.span (fun m => ¬(type = 0 ∨ m.type = type)) = ([], m :: rest) := by
    rw [h, span_eq_takeWhile_dropWhile]
    simp [ht]
  rw [msgqueueRecv, hspan]
  exact if_neg (not_lt.mpr hs)

lemma msgqueueSend_ok (h : msgqueueSend kmalloc m queue = .ok queue') :
    queue'.messages = queue.messages ++ [m] := by
  unfold msgqueueSend at h
  split_ifs at h
  cases h
  rfl

end Queue

/-! ## What a step does -/

/-- The moves of the protocol: what each step may return and change. -/
inductive Move (w : PolicyWatch) : PolicyOp → Option CheckState → PolicyWatch → Prop
  | quiet {op : PolicyOp} (a b : Bool) (t : ℕ) : (∀ pid m, op = .round pid m → w.sys.waits pid = none) →
      Move w op none { w with sys := { w.sys with daemonAvailable := a, connected := b, ticks := t } }
  | hit {pid k m} : 0 ≤ (w.sys.lookup k).1 → Move w (.check pid k m) (some (.cached (w.sys.lookup k).1))
      { w with sys := { w.sys with cache := (w.sys.lookup k).2.cache } }
  | refuse {pid k m} (a : Bool) (i : ℕ) : i = w.sys.nextQueryId ∨ i = u32 (w.sys.nextQueryId + 1) →
      Move w (.check pid k m) (some .fallback) { w with sys := { w.sys with
        cache := (w.sys.lookup k).2.cache, daemonAvailable := a, nextQueryId := i } }
  | send {pid k m queue} : (w.sys.lookup k).1 < 0 → w.sys.daemonAvailable → w.sys.connected →
      queue.messages = w.sys.toDaemon.messages ++ [queryMessage ⟨w.sys.nextQueryId, k⟩] →
      Move w (.check pid k m) (some .waiting)
        { w with
          sys := { w.sys with
            cache := (w.sys.lookup k).2.cache
            daemonAvailable := w.sys.connected
            nextQueryId := u32 (w.sys.nextQueryId + 1)
            toDaemon := queue
            waits := update w.sys.waits pid (some ⟨⟨w.sys.nextQueryId, k⟩, w.sys.ticks⟩) }
          sent := w.sent ++ [⟨w.sys.nextQueryId, k⟩]
          number := update w.number pid w.sent.length }
  | fetch {q queue} : w.sys.toDaemon.messages = queryMessage q :: queue.messages → Move w .fetch none
      { w with sys := { w.sys with toDaemon := queue, inHand := w.sys.inHand ++ [q] } }
  | answer {q rest result m queue} : w.sys.inHand = q :: rest →
      queue.messages = w.sys.toKernel.messages ++ [responseMessage q result] →
      Move w (.answer result m) none { w with
        sys := { w.sys with toKernel := queue, inHand := rest }, answers := w.answers ++ [result] }
  | wait {pid m wait} : w.sys.waits pid = some wait → w.sys.toKernel.messages = [] →
      Move w (.round pid m) (some .waiting) w
  | giveUp {pid m wait queue} : w.sys.waits pid = some wait →
      (¬u64Sub w.sys.ticks wait.start < policyTimeoutMs ∧ queue = w.sys.toKernel ∨
        ∃ r, w.sys.toKernel.messages = r :: queue.messages ∧ r.payload.queryId ≠ wait.query.queryId) →
      Move w (.round pid m) (some .fallback)
        { w with sys := { w.sys with toKernel := queue, waits := update w.sys.waits pid none } }
  | take {pid m wait r queue} : w.sys.waits pid = some wait → w.sys.toKernel.messages = r :: queue.messages →
      r.payload.queryId = wait.query.queryId → Move w (.round pid m) (some (.answered r.payload.result))
        { w with
          sys := { w.sys with toKernel := queue, waits := update w.sys.waits pid none }.insert
            wait.query.key r.payload.result m
          stored := (w.number pid, w.sys.ticks) :: w.stored }

variable {wait : PolicyWait} {m : IpcMessage PolicyResponse} {rest : List (IpcMessage PolicyResponse)}

lemma check_move (hw : w.sys.waits pid = none) (k : PolicyKey) (m : Bool) :
    Move w (.check pid k m) (policyStep (.check pid k m) w).1 (policyStep (.check pid k m) w).2 := by
  have hexec : exec (.check pid k m) w.sys =
      (some (w.sys.policyCheckAccess pid k m).1, (w.sys.policyCheckAccess pid k m).2) := by
    rw [exec, hw]
  rw [policyStep_eq hexec, policyCheckAccess, lookup_frame]
  dsimp only
  split_ifs with hr hav
  · exact .hit hr
  · exact .refuse _ _ (.inl rfl)
  rw [daemonQuery, refresh]
  dsimp only
  split_ifs with hcon
  · exact .refuse _ _ (.inr rfl)
  cases hsend : msgqueueSend m ⟨axiomdMsgQuery, sizeofPolicyQuery, ⟨w.sys.nextQueryId, k⟩⟩ w.sys.toDaemon with
  | error e => exact .refuse _ _ (.inr rfl)
  | ok queue => exact .send (by omega) (by simpa using hav) (by simpa using hcon) (msgqueueSend_ok hsend)

section

variable (h : Flow w)
include h

lemma Flow.count : w.sent.length = w.answers.length + w.sys.inHand.length + w.sys.toDaemon.messages.length := by
  obtain ⟨done, qs, -, -, hsent, hlen, hd, -⟩ := h
  rw [hsent, hd, length_append, length_append, length_map, hlen, Nat.add_assoc]

lemma Flow.head (hm : w.sys.toKernel.messages = m :: rest) : ∃ i q result, m = responseMessage q result ∧
      w.sent[i]? = some q ∧ w.answers[i]? = some result ∧ i + rest.length + 1 = w.answers.length := by
  obtain ⟨done, qs, gone, replies, hsent, hlen, -, hzip, hk⟩ := h
  obtain _ | ⟨⟨q, result⟩, replies⟩ := replies
  · rw [hk] at hm
    cases hm
  obtain ⟨rfl, rfl⟩ := List.cons.inj (hk.symm.trans hm)
  have hi : (done.zip w.answers)[gone.length]? = some (q, result) := by simp [hzip]
  obtain ⟨hq, hres⟩ := getElem?_zip_eq_some.mp hi
  refine ⟨_, q, result, rfl, ?_, hres, ?_⟩
  · rw [hsent]
    exact getElem?_of_prefix (prefix_append ..) hq
  · have := congrArg length hzip
    simp [hlen] at this ⊢
    omega

lemma round_move (hw : w.sys.waits pid = some wait) (m : Option ℕ) :
    Move w (.round pid m) (policyStep (.round pid m) w).1 (policyStep (.round pid m) w).2 := by
  have hexec : exec (.round pid m) w.sys =
      (some (w.sys.recvRound pid wait m).1, (w.sys.recvRound pid wait m).2) := by
    rw [exec, hw]
  rw [policyStep_eq hexec, recvRound]
  dsimp only
  split_ifs with htime
  swap
  · exact .giveUp hw (.inl ⟨htime, rfl⟩)
  cases hk : w.sys.toKernel.messages with
  | nil =>
    rw [msgqueueRecv_nil hk]
    exact .wait hw hk
  | cons r rest =>
    obtain ⟨-, q, result, rfl, -⟩ := h.head hk
    have hrecv : msgqueueRecv sizeofPolicyResponse axiomdMsgResponse w.sys.toKernel =
        .ok (⟨q.queryId, result⟩, _) := msgqueueRecv_cons hk rfl (le_refl _)
    rw [hrecv]
    dsimp only
    split_ifs with hid
    · exact .giveUp hw (.inr ⟨_, hk, hid⟩)
    · exact .take (r := responseMessage q result) hw hk (not_not.mp hid)

theorem policyStep_move (op : PolicyOp) : Move w op (policyStep op w).1 (policyStep op w).2 := by
  cases op with
  | check pid k m =>
    cases hw : w.sys.waits pid with
    | none => exact check_move hw k m
    | some wait =>
      rw [policyStep_eq (s := w.sys) (by rw [exec, hw])]
      exact .quiet _ _ _ nofun
  | round pid m =>
    cases hw : w.sys.waits pid with
    | some wait => exact round_move h hw m
    | none =>
      rw [policyStep_eq (s := w.sys) (by rw [exec, hw])]
      refine .quiet _ _ _ ?_
      rintro _ _ ⟨⟩
      exact hw
  | fetch =>
    obtain ⟨-, qs, -, -, -, -, hd, -⟩ := h
    cases qs with
    | nil =>
      rw [policyStep_eq (s := w.sys) (by rw [exec, PolicySys.fetch, msgqueueRecv_nil hd])]
      exact .quiet _ _ _ nofun
    | cons q qs =>
      have hrecv : msgqueueRecv sizeofPolicyQuery axiomdMsgQuery w.sys.toDaemon = .ok (q, _) :=
        msgqueueRecv_cons hd rfl (le_refl _)
      rw [policyStep_eq (by rw [exec, PolicySys.fetch, hrecv])]
      exact .fetch hd
  | answer result m =>
    have hsame (hs : w.sys.answer result m = w.sys) :
        Move w (.answer result m) (policyStep (.answer result m) w).1 (policyStep (.answer result m) w).2 := by
      rw [policyStep_eq (by rw [exec, hs])]
      dsimp only [PolicyWatch.note]
      rw [if_neg (lt_irrefl _)]
      exact .quiet _ _ _ nofun
    cases hh : w.sys.inHand with
    | nil => exact hsame (by rw [PolicySys.answer, hh])
    | cons q rest =>
      cases hsend : msgqueueSend m (responseMessage q result) w.sys.toKernel with
      | error e =>
        refine hsame ?_
        rw [responseMessage] at hsend
        simp only [PolicySys.answer, hh, hsend]
      | ok queue =>
        have hans : w.sys.answer result m = { w.sys with toKernel := queue, inHand := rest } := by
          rw [responseMessage] at hsend
          simp only [PolicySys.answer, hh, hsend]
        rw [policyStep_eq (by rw [exec, hans])]
        dsimp only [PolicyWatch.note]
        rw [if_pos (by rw [hh]; exact lt_add_one _)]
        exact .answer hh (msgqueueSend_ok hsend)
  | available | tick | register | unregister => exact .quiet _ _ _ nofun

lemma Flow.move {r : Option CheckState} (hm : Move w op r w') : Flow w' := by
  obtain ⟨done, qs, gone, replies, hsent, hlen, hd, hzip, hk⟩ := h
  have htail {r rest} (hr : w.sys.toKernel.messages = r :: rest) : ∃ gone replies, done.zip w.answers = gone ++ replies ∧
        rest = replies.map fun x => responseMessage x.1 x.2 := by
    obtain _ | ⟨x, replies⟩ := replies
    · cases hk.symm.trans hr
    · exact ⟨gone ++ [x], replies, by simp [hzip], (List.cons.inj (hk.symm.trans hr)).2.symm⟩
  cases hm with
  | quiet | hit | refuse | wait => exact ⟨done, qs, gone, replies, hsent, hlen, hd, hzip, hk⟩
  | @send _ k _ _ _ _ _ hqueue =>
    exact ⟨done, qs ++ [⟨w.sys.nextQueryId, k⟩], gone, replies, by simp [hsent], hlen, by simp [hqueue, hd], hzip, hk⟩
  | @fetch q _ hq =>
    rw [hq] at hd
    obtain _ | ⟨q', qs⟩ := qs
    · cases hd
    obtain ⟨he, hqs⟩ := List.cons.inj hd
    obtain rfl : q = q' := congrArg IpcMessage.payload he
    exact ⟨done, qs, gone, replies, by simpa using hsent, hlen, hqs, hzip, hk⟩
  | @answer q _ result _ _ hh hqueue =>
    rw [hh] at hsent
    exact ⟨done ++ [q], qs, gone, replies ++ [(q, result)], by simpa using hsent, by simp [hlen], hd,
      by simp [zip_append hlen, hzip], by rw [hqueue, hk, map_append]; rfl⟩
  | giveUp _ hqueue =>
    obtain ⟨-, rfl⟩ | ⟨r, hr, -⟩ := hqueue
    · exact ⟨done, qs, gone, replies, hsent, hlen, hd, hzip, hk⟩
    obtain ⟨gone, replies, hzip, hk⟩ := htail hr
    exact ⟨done, qs, gone, replies, hsent, hlen, hd, hzip, hk⟩
  | take _ hr _ =>
    obtain ⟨gone, replies, hzip, hk⟩ := htail hr
    exact ⟨done, qs, gone, replies, hsent, hlen, hd, hzip, hk⟩

end

/-! ## Answers and their queries -/

/-- The first answer in the queue, if it has the id of a query that a task waits for, is the answer to
this query. -/
def Hit (w : PolicyWatch) : Prop :=
  ∀ pid wait r rest, w.sys.waits pid = some wait → w.sys.toKernel.messages = r :: rest →
    r.payload.queryId = wait.query.queryId → w.answers[w.number pid]? = some r.payload.result

/-- A task gets no answer but the one to its query, and a decision from the cache is an answer for the
same key that has not expired. -/
def Safe (ttl : ℕ) (op : PolicyOp) (w : PolicyWatch) (r : Option CheckState) : Prop :=
  match op with
  | .round pid _ => ∀ result, r = some (.answered result) → w.answers[w.number pid]? = some result
  | .check _ k _ => ∀ result, r = some (.cached result) →
      ∃ t0, w.Stored k result t0 ∧ w.sys.ticks < t0 + ttl
  | _ => True

variable {r : Option CheckState}

lemma Move.grows (hm : Move w op r w') : w.Grows w' := by
  cases hm <;> constructor
  any_goals exact prefix_refl _
  any_goals exact List.Subset.refl _
  · exact prefix_append ..
  · exact prefix_append ..
  · exact subset_cons_self ..

lemma of_update_none {f : ℕ → Option PolicyWait} {pid' : ℕ} 
    (h : update f pid none pid' = some wait) : f pid' = some wait := by
  by_cases hp : pid' = pid
  · rw [hp, update_self] at h
    cases h
  · exact update_of_ne hp none f ▸ h

lemma PolicyInv.move (h : PolicyInv ttl w) (hit : Hit w) (hm : Move w op r w') :
    PolicyInv ttl w' ∧ Safe ttl op w r := by
  have hflow := h.flow.move hm
  have hgrows := hm.grows
  have hcache : ∀ c ∈ w.sys.cache, CacheGenuine ttl w' c := fun c hc => (h.cache c hc).mono hgrows
  have hlook (k : PolicyKey) : ∀ c ∈ (w.sys.lookup k).2.cache, CacheGenuine ttl w' c :=
    fun c hc => ((lookup_genuine h.cache k).1 c hc).mono hgrows
  cases hm with
  | quiet => exact ⟨⟨hcache, hflow, h.wait⟩, by cases op <;> simp [Safe]⟩
  | @hit _ k _ hr => exact ⟨⟨hlook k, hflow, h.wait⟩, by rintro _ ⟨⟩; exact (lookup_genuine h.cache k).2 hr⟩
  | @refuse _ k => exact ⟨⟨hlook k, hflow, h.wait⟩, nofun⟩
  | @send pid k =>
    refine ⟨⟨hlook k, hflow, fun pid' wait hw => ?_⟩, nofun⟩
    dsimp only at hw ⊢
    by_cases hp : pid' = pid
    · subst hp
      rw [update_self] at hw ⊢
      cases hw
      simp
    · rw [update_of_ne hp] at hw ⊢
      exact getElem?_of_prefix (prefix_append ..) (h.wait pid' wait hw)
  | fetch | answer => exact ⟨⟨hcache, hflow, h.wait⟩, trivial⟩
  | wait => exact ⟨h, nofun⟩
  | giveUp => exact ⟨⟨hcache, hflow, fun pid' wait hw => h.wait pid' wait (of_update_none hw)⟩, nofun⟩
  | @take pid m wait _ _ hw hr hid =>
    have hres := hit pid wait _ _ hw hr hid
    exact ⟨⟨insert_genuine m hcache ⟨w.number pid, mem_cons_self, hres, wait.query, h.wait pid wait hw, rfl⟩, hflow,
      fun pid' wait hw => h.wait pid' wait (of_update_none hw)⟩, by rintro _ ⟨⟩; exact hres⟩

/-! ## One query at a time -/

/-- The query that a task waits for is the last one and the only one under way. -/
def Lone (w : PolicyWatch) : Prop :=
  ∀ pid wait, w.sys.waits pid = some wait → (∀ pid' ≠ pid, w.sys.waits pid' = none) ∧
    w.sent.length = w.number pid + 1 ∧ w.sent.length + w.sys.toKernel.messages.length = w.answers.length + 1

lemma Lone.move (h : Lone w) (hf : Flow w) (hone : OneAtATime op w) (hm : Move w op r w') : Lone w' := by
  have hdone {pid wait} (hw : w.sys.waits pid = some wait) (pid' : ℕ) :
      update w.sys.waits pid none pid' = none := by
    by_cases hp : pid' = pid
    · rw [hp, update_self]
    · rw [update_of_ne hp, (h pid wait hw).1 pid' hp]
  cases hm with
  | quiet | hit | refuse | fetch | wait => exact h
  | @send pid _ _ _ hneg hav hcon hqueue =>
    obtain ⟨hd, hh, hk⟩ := hone hneg hav hcon
    have hcount := hf.count
    rw [hd, hh] at hcount
    have hidle (pid' : ℕ) : w.sys.waits pid' = none := by
      cases hw : w.sys.waits pid' with
      | none => rfl
      | some wait =>
        have := (h pid' wait hw).2.2
        simp [hcount, hk] at this
    intro pid' wait hw
    dsimp only at hw ⊢
    by_cases hp : pid' = pid
    swap
    · rw [update_of_ne hp, hidle] at hw
      cases hw
    subst hp
    refine ⟨fun pid'' hne => ?_, by simp, by simp [hcount, hk]⟩
    rw [update_of_ne hne, hidle]
  | answer hh hqueue =>
    intro pid wait hw
    obtain ⟨halone, hlen, hsum⟩ := h pid wait hw
    refine ⟨halone, hlen, ?_⟩
    simp only [hqueue, length_append, length_singleton]
    omega
  | giveUp hw _ => exact fun pid' wait hw' => nomatch (hdone hw pid').symm.trans hw'
  | take hw _ _ => exact fun pid' wait hw' => nomatch (hdone hw pid').symm.trans hw'

section

variable (h : PolicyInv ttl w) (hl : Lone w)
include h hl

lemma Lone.first (hw : w.sys.waits pid = some wait) (hm : w.sys.toKernel.messages = m :: rest) :
    m.payload.queryId = wait.query.queryId ∧ w.answers[w.number pid]? = some m.payload.result := by
  obtain ⟨i, q, result, rfl, hq, hres, hi⟩ := h.flow.head hm
  obtain ⟨-, hlen, hsum⟩ := hl pid wait hw
  rw [hm, length_cons] at hsum
  obtain rfl : i = w.number pid := by omega
  exact ⟨congrArg PolicyQuery.queryId (some.inj (hq.symm.trans (h.wait pid wait hw))), hres⟩

lemma PolicyInv.matched (hone : OneAtATime op w) : PolicyInv ttl (policyStep op w).2 ∧
    Lone (policyStep op w).2 ∧ Matched ttl op w := by
  have hm := policyStep_move h.flow op
  obtain ⟨hinv, hsafe⟩ := h.move (fun pid wait r rest hw hr _ => (Lone.first h hl hw hr).2) hm
  refine ⟨hinv, hl.move h.flow hone hm, ?_⟩
  cases op with
  | round pid m =>
    refine fun hne result => ⟨hsafe result, fun hres => ?_⟩
    have hlt := (List.getElem?_eq_some_iff.mp hres).1
    generalize (policyStep (.round pid m) w).2 = w' at hm
    generalize (policyStep (.round pid m) w).1 = r at hm hsafe ⊢
    cases hm with
    | quiet _ _ _ hround => exact absurd (hround pid m rfl) hne
    | wait hw hk =>
      obtain ⟨-, hlen, hsum⟩ := hl pid _ hw
      simp only [hk, length_nil] at hsum
      omega
    | giveUp hw hqueue =>
      obtain ⟨htime, -⟩ | ⟨r, hr, hid⟩ := hqueue
      · refine absurd (hone _ hw fun hk => ?_) htime
        obtain ⟨-, hlen, hsum⟩ := hl pid _ hw
        simp only [hk, length_nil] at hsum
        omega
      · exact absurd (Lone.first h hl hw hr).1 hid
    | take hw hr hid => rw [← some.inj (hres.symm.trans (Lone.first h hl hw hr).2)]
  | check => exact hsafe
  | _ => trivial

end

/-! ## Many queries -/

/-- The ids of the queries differ, and none of the next `2 ^ 32 - n` calls wraps them around. -/
structure FreshIds (n : ℕ) (w : PolicyWatch) : Prop where
  nodup : (w.sent.map PolicyQuery.queryId).Nodup
  lt : ∀ q ∈ w.sent, q.queryId < w.sys.nextQueryId
  next : w.sys.nextQueryId ≤ n

lemma FreshIds.move {n : ℕ} (h : FreshIds n w) (hn : n + 1 < 2 ^ 32) (hm : Move w op r w') : FreshIds (n + 1) w' := by
  have hnext := h.next
  have hu : u32 (w.sys.nextQueryId + 1) = w.sys.nextQueryId + 1 := u32_of_lt (by omega)
  have hlater : ∀ q ∈ w.sent, q.queryId < w.sys.nextQueryId + 1 := fun q hq => (h.lt q hq).trans (lt_add_one _)
  cases hm with
  | refuse a i hi =>
    rw [hu] at hi
    obtain rfl | rfl := hi
    · exact ⟨h.nodup, h.lt, hnext.trans (Nat.le_succ n)⟩
    · exact ⟨h.nodup, hlater, Nat.succ_le_succ hnext⟩
  | send =>
    rw [hu]
    refine ⟨?_, fun q hq => ?_, Nat.succ_le_succ hnext⟩
    · rw [map_append, nodup_append_comm, map_singleton, singleton_append, nodup_cons, List.mem_map]
      exact ⟨fun ⟨q, hq, he⟩ => (h.lt q hq).ne he, h.nodup⟩
    · obtain hq | hq := mem_append.mp hq
      · exact hlater q hq
      · rw [mem_singleton.mp hq]
        exact lt_add_one _
  | _ => exact ⟨h.nodup, h.lt, hnext.trans (Nat.le_succ n)⟩

lemma FreshIds.hit {n : ℕ} (h : FreshIds n w) (hinv : PolicyInv ttl w) : Hit w := by
  intro pid wait r rest hw hr hid
  obtain ⟨i, q, result, rfl, hq, hres, -⟩ := hinv.flow.head hr
  have hi := (List.getElem?_eq_some_iff.mp hq).1
  have he : (w.sent.map PolicyQuery.queryId)[i]? = (w.sent.map PolicyQuery.queryId)[w.number pid]? := by
    rw [getElem?_map, getElem?_map, hq, hinv.wait pid wait hw]
    exact congrArg some hid
  rwa [(List.getElem?_inj (by rwa [length_map]) h.nodup).mp he] at hres

def axiomfsCacheMaxEntries : ℕ := 65536
def axiomfsPolicyTimeoutMs : ℕ := 100

def policyInit (kzalloc : Bool) : Option PolicyCache :=
  if kzalloc then some (policyCacheCreate axiomfsCacheMaxEntries axiomfsPolicyTimeoutMs) else none

lemma policyInv_boot (kzalloc : Bool) : PolicyInv axiomfsPolicyTimeoutMs (.boot (policyInit kzalloc)) where
  cache := fun c hc => by
    cases kzalloc with
    | false => cases hc
    | true =>
      cases hc
      exact ⟨rfl, [], [], policyOk_create (by decide), by simp⟩
  flow := ⟨[], [], [], [], rfl, rfl, rfl, rfl, rfl⟩
  wait := nofun

/-- **No answer is taken for another** in any run that is too short for the ids to wrap around, however
many tasks ask at once and however late the answers come. -/
theorem policy_run_safe (kzalloc : Bool) (ops : List PolicyOp) (hops : ops.length + 1 < 2 ^ 32) (op : PolicyOp) :
    let w := (runOps policyStep ops (.boot (policyInit kzalloc))).2
    Safe axiomfsPolicyTimeoutMs op w (policyStep op w).1 := by
  suffices h : PolicyInv axiomfsPolicyTimeoutMs (runOps policyStep ops (.boot (policyInit kzalloc))).2 ∧
      FreshIds (ops.length + 1) (runOps policyStep ops (.boot (policyInit kzalloc))).2 from
    (h.1.move (h.2.hit h.1) (policyStep_move h.1.flow op)).2
  induction ops using List.reverseRecOn with
  | nil => exact ⟨policyInv_boot kzalloc, nodup_nil, nofun, le_refl _⟩
  | append_singleton ops last ih =>
    rw [length_append, length_singleton] at hops ⊢
    obtain ⟨hinv, hids⟩ := ih (by omega)
    rw [runOps_append]
    have hm := policyStep_move hinv.flow last
    exact ⟨(hinv.move (hids.hit hinv) hm).1, hids.move hops hm⟩

/-- **Answers are matched to their queries** in every run in which a query is sent only when nothing of
an earlier one is left, and no round finds an answer after the time-out: a task gets the daemon's
answer to its own query as soon as it is there, and a decision that is not the fallback is that answer
or an answer for the same key from the cache that has not expired. -/
theorem policy_run_matched (kzalloc : Bool) (ops : List PolicyOp)
    (h : Along policyStep OneAtATime ops (.boot (policyInit kzalloc))) (pre : List PolicyOp)
    (op : PolicyOp) (hpre : pre ++ [op] <+: ops) :
    Matched axiomfsPolicyTimeoutMs op (runOps policyStep pre (.boot (policyInit kzalloc))).2 := by
  obtain ⟨rest, rfl⟩ := hpre
  rw [append_assoc, along_append] at h
  obtain ⟨hpast, hone, -⟩ := h
  obtain ⟨hinv, hlone⟩ := runOps_inv_along (fun w => PolicyInv axiomfsPolicyTimeoutMs w ∧ Lone w)
    (Q := fun _ => True) (fun _ _ _ hone hw => (hw.1.matched hw.2 hone).imp_right And.left)
    (fun _ _ => trivial) hpast ⟨policyInv_boot kzalloc, nofun⟩
  exact (hinv.matched hlone hone).2.2

instance (op : PolicyOp) (w : PolicyWatch) : Decidable (OneAtATime op w) := by
  cases op <;> dsimp only [OneAtATime] <;> infer_instance

def oneExchange : List PolicyOp :=
  [.register, .available, .check 1 ⟨5, 5, 7, policyOpWrite⟩ true, .fetch, .answer policyAllow true]

theorem policy_run_matched_small : Matched axiomfsPolicyTimeoutMs (.round 1 none)
      (runOps policyStep oneExchange (.boot (policyInit true))).2 :=
  policy_run_matched true (oneExchange ++ [.round 1 none]) (by decide +kernel) oneExchange _ (prefix_refl _)

/-- A query whose answer comes after the time-out, and then a second one that is answered at once. -/
def lateExchange : List PolicyOp :=
  [.register, .available, .check 1 ⟨5, 5, 7, policyOpWrite⟩ true, .fetch] ++
    List.replicate 100 .tick ++ [.round 1 none, .answer policyAllow true,
    .check 1 ⟨5, 5, 8, policyOpWrite⟩ true, .fetch, .answer policyAllow true]

/-- A late answer spoils the next exchange: the answer to the second query is in the queue and the wait
for it has just begun, but the round takes the late answer to the first query and gives up. -/
theorem late_answer_shifts :
    let w := (runOps policyStep lateExchange (.boot (policyInit true))).2
    (w.sys.waits 1).map (·.start) = some w.sys.ticks ∧ w.answers[w.number 1]? = some policyAllow ∧
      (policyStep (.round 1 none) w).1 = some .fallback := by
  decide +kernel

end Obelisk
