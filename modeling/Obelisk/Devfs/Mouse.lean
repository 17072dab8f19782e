import Obelisk.Lib.Run

/-!
# Mouse packets

`ps2_mouse_irq` assembles packets from the bytes of the controller, and the console polls read the
same bytes.
-/

namespace Obelisk.Mouse

open KLib List

/-- A packet as the mouse sends it; bit 3 marks the first byte. -/
structure Packet where
  b0 : UInt8
  b1 : UInt8
  b2 : UInt8
  sync : b0 &&& 8 ≠ 0

def Packet.bytes (p : Packet) : List UInt8 := [p.b0, p.b1, p.b2]

/-- The controller, the driver and the mouse. -/
structure Ps2 where
  /-- The output buffer of the controller, with `I8042_STAT_AUX` for each byte. -/
  buf : List (Bool × UInt8)
  /-- What the data port returns when the buffer is empty. -/
  last : UInt8
  /-- The first `g_mouse_pkt_idx` bytes of `g_mouse_pkt`. -/
  pkt : List UInt8
  miceQ : List (List UInt8)
  /-- The rest of the packet that the mouse is sending. -/
  sending : List UInt8
  sent : List Packet
  /-- The packets that `mice_read` has returned. -/
  got : List (List UInt8)

def Ps2.boot : Ps2 := ⟨[], 0, [], [], [], [], []⟩

def inbData (s : Ps2) : UInt8 × Ps2 :=
  match s.buf with
  | [] => (s.last, s)
  | (_, b) :: buf => (b, { s with buf := buf, last := b })

def micePktQueueCap : ℕ := 256

def miceQueuePush (pkt : List UInt8) (s : Ps2) : Ps2 :=
  if s.miceQ.length + 1 = micePktQueueCap then s else { s with miceQ := s.miceQ ++ [pkt] }

def miceRead (null : Bool) (count : ℕ) (s : Ps2) : Ps2 :=
  if null || count < 3 then s
  else match s.miceQ with
    | [] => s
    | q :: rest => { s with miceQ := rest, got := s.got ++ [q] }

def ps2MouseIrq (s : Ps2) : Ps2 :=
  let (b, s) := inbData s
  if s.pkt = [] ∧ b &&& 8 = 0 then s
  else if s.pkt.length + 1 < 3 then { s with pkt := s.pkt ++ [b] }
  else miceQueuePush (s.pkt ++ [b]) { s with pkt := [] }

def ps2KbdIrq (s : Ps2) : Ps2 :=
  match s.buf with
  | (false, _) :: _ => (inbData s).2
  | _ => s

/-- The loop of the console polls; `ready` says after which bytes of the keyboard a character is
queued. -/
def poll : ℕ → List Bool → Ps2 → Ps2
  | 0, _, s => s
  | n + 1, ready, s =>
    match s.buf with
    | [] => s
    | (true, _) :: _ => poll n ready (inbData s).2
    | (false, _) :: _ =>
      if ready.headD false then (inbData s).2 else poll n ready.tail (inbData s).2

def devfsConsoleGetcNonblock (queued : Bool) (ready : List Bool) (s : Ps2) : Ps2 :=
  if queued then s else poll 32 ready s

def devfsConsolePeekcNonblock (queued : Bool) (ready : List Bool) (s : Ps2) : Ps2 :=
  if queued then s else poll 32 ready s

/-- What can happen to them. -/
inductive Op
  | send (p : Packet)
  /-- The next byte of the mouse, and a byte of the keyboard, reach the buffer. -/
  | mouse
  | kbd (b : UInt8)
  | kbdIrq
  | mouseIrq
  | getc (queued : Bool) (ready : List Bool)
  | peekc (queued : Bool) (ready : List Bool)
  | read (null : Bool) (count : ℕ)

def step : Op → Ps2 → Unit × Ps2
  | .send p, s => ((), if s.sending = [] then
      { s with sending := p.bytes, sent := s.sent ++ [p] } else s)
  | .mouse, s => ((), { s with
      buf := s.buf ++ s.sending.head?.toList.map (true, ·), sending := s.sending.tail })
  | .kbd b, s => ((), { s with buf := s.buf ++ [(false, b)] })
  | .kbdIrq, s => ((), ps2KbdIrq s)
  | .mouseIrq, s => ((), ps2MouseIrq s)
  | .getc q r, s => ((), devfsConsoleGetcNonblock q r s)
  | .peekc q r, s => ((), devfsConsolePeekcNonblock q r s)
  | .read null count, s => ((), miceRead null count s)

/-- The interrupt of the mouse finds a byte of the mouse or drops what it finds, and a poll takes no
byte of the mouse. -/
def Clean : Op → Ps2 → Prop
  | .mouseIrq, s => s.buf.head?.map Prod.fst = some true ∨ s.pkt = [] ∧ (inbData s).1 &&& 8 = 0
  | .getc q r, s | .peekc q r, s =>
    q = false → (poll 32 r s).buf.filter Prod.fst = s.buf.filter Prod.fst
  | _, _ => True

def Ps2.stream (s : Ps2) : List UInt8 :=
  s.pkt ++ ((s.buf.filter Prod.fst).map Prod.snd ++ s.sending)

/-- Packets stay whole: the invariant of the driver. -/
structure Framed (s : Ps2) : Prop where
  short : s.pkt.length < 3
  stream : ∃ rest ⊆ s.sent, s.stream = rest.flatMap Packet.bytes
  whole : ∀ q ∈ s.miceQ ++ s.got, ∃ p ∈ s.sent, q = p.bytes

variable {s : Ps2} {buf : List (Bool × UInt8)} {b : UInt8}

lemma Framed.keeps (h : Framed s) (hk : buf.filter Prod.fst = s.buf.filter Prod.fst) :
    Framed { s with buf := buf, last := b } := by
  obtain ⟨rest, hr, he⟩ := h.stream
  exact ⟨h.short, ⟨rest, hr, by rwa [Ps2.stream, hk]⟩, h.whole⟩

lemma inbData_kbd (hb : s.buf = (false, b) :: buf) (h : Framed s) : Framed (inbData s).2 := by
  simpa only [inbData, hb] using h.keeps (by rw [hb]; rfl)

lemma poll_frame (n : ℕ) (ready : List Bool) (s : Ps2) :
    ∃ buf last, poll n ready s = { s with buf := buf, last := last } := by
  induction n generalizing ready s with
  | zero => exact ⟨_, _, rfl⟩
  | succ n ih =>
    rw [poll]
    split
    · exact ⟨_, _, rfl⟩
    · next b t hb => simpa only [inbData, hb] using ih ready (inbData s).2
    · next b t hb =>
      simp only [inbData, hb]
      split_ifs
      · exact ⟨_, _, rfl⟩
      · exact ih ready.tail _

lemma miceQueuePush_framed {p : Packet} (hp : p ∈ s.sent) (h : Framed s) :
    Framed (miceQueuePush p.bytes s) := by
  unfold miceQueuePush
  split_ifs
  · exact h
  refine ⟨h.short, h.stream, fun q hq => ?_⟩
  simp only [mem_append, mem_singleton] at hq
  rcases hq with (hq | rfl) | hq
  · exact h.whole q (mem_append_left _ hq)
  · exact ⟨p, hp, rfl⟩
  · exact h.whole q (mem_append_right _ hq)

lemma ps2MouseIrq_framed (hc : Clean .mouseIrq s) (h : Framed s) :
    Framed (ps2MouseIrq s) := by
  obtain ⟨_ | ⟨⟨_ | _, b⟩, t⟩, last, pkt, q, out, sent, got⟩ := s
  · obtain ⟨rfl, hd⟩ : pkt = [] ∧ last &&& 8 = 0 := by simpa [Clean, inbData] using hc
    simpa [ps2MouseIrq, inbData, hd] using h
  · obtain ⟨rfl, hd⟩ : pkt = [] ∧ b &&& 8 = 0 := by simpa [Clean, inbData] using hc
    simpa [ps2MouseIrq, inbData, hd] using inbData_kbd rfl h
  obtain ⟨rest, hr, he⟩ := h.stream
  obtain _ | ⟨p, rest⟩ := rest
  · simp [Ps2.stream] at he
  have hp : p ∈ sent := hr mem_cons_self
  -- how much of the packet `p` has been assembled
  match pkt, h.short with
  | [], _ =>
    have hb : b = p.b0 := by simp_all [Ps2.stream, Packet.bytes]
    simp only [ps2MouseIrq, inbData, hb, p.sync, and_false, if_false]
    exact ⟨by simp, ⟨p :: rest, hr, by simpa [Ps2.stream, hb] using he⟩, h.whole⟩
  | [x], _ =>
    simp only [ps2MouseIrq, inbData, cons_ne_nil, false_and, if_false]
    exact ⟨by simp, ⟨p :: rest, hr, by simpa [Ps2.stream] using he⟩, h.whole⟩
  | [x, y], _ =>
    have hb : [x, y, b] = p.bytes ∧ (t.filter Prod.fst).map Prod.snd ++ out =
        rest.flatMap Packet.bytes := by
      simp_all [Ps2.stream, Packet.bytes]
    have hnext : Framed ⟨t, b, [], q, out, sent, got⟩ :=
      ⟨by simp, ⟨rest, fun _ hx => hr (mem_cons_of_mem _ hx), hb.2⟩, h.whole⟩
    simpa [ps2MouseIrq, inbData, hb.1] using miceQueuePush_framed hp hnext

lemma step_framed (op : Op) (s : Ps2) (hc : Clean op s) (h : Framed s) :
    Framed (step op s).2 := by
  obtain ⟨rest, hr, he⟩ := h.stream
  cases op with
  | send p =>
    simp only [step]
    split_ifs with h0
    · refine ⟨h.short, ⟨rest ++ [p], ?_, ?_⟩, fun q hq => ?_⟩
      · exact append_subset.mpr ⟨List.Subset.trans hr (subset_append_left ..), by simp⟩
      · simp only [Ps2.stream, h0, append_nil] at he ⊢
        rw [← append_assoc, he, flatMap_append, flatMap_singleton]
      · obtain ⟨p', hp', rfl⟩ := h.whole q hq
        exact ⟨p', mem_append_left _ hp', rfl⟩
    · exact h
  | mouse =>
    refine ⟨h.short, ⟨rest, hr, he ▸ ?_⟩, h.whole⟩
    rcases hs : s.sending with _ | ⟨b, t⟩ <;> simp [step, Ps2.stream, hs]
  | kbd b => exact ⟨h.short, ⟨rest, hr, he ▸ by simp [step, Ps2.stream]⟩, h.whole⟩
  | kbdIrq =>
    simp only [step, ps2KbdIrq]
    split
    · next hb => exact inbData_kbd hb h
    · exact h
  | mouseIrq => exact ps2MouseIrq_framed hc h
  | getc q r | peekc q r =>
    cases q with
    | true => exact h
    | false =>
      obtain ⟨buf, last, hpoll⟩ := poll_frame 32 r s
      have hk := hc rfl
      rw [hpoll] at hk
      exact (congrArg Framed hpoll).mpr (h.keeps hk)
  | read null count =>
    simp only [step, miceRead]
    split_ifs
    · exact h
    split
    · exact h
    · next q t hq => exact ⟨h.short, h.stream, fun x hx => h.whole x (by simp_all; tauto)⟩

/-- **Mouse packets.** If every call is `Clean`, a packet that is read is one that the mouse has sent. -/
theorem mice_packets_whole (ops : List Op) (h : Along step Clean ops Ps2.boot) :
    ∀ q ∈ (runOps step ops Ps2.boot).2.got,
      ∃ p ∈ (runOps step ops Ps2.boot).2.sent, q = p.bytes := by
  have hboot : Framed Ps2.boot := ⟨by decide, ⟨[], by simp, rfl⟩, by simp [Ps2.boot]⟩
  have hrun := runOps_inv_along (Q := fun _ => True) Framed (fun op s _ => step_framed op s)
    (fun _ _ => trivial) h hboot
  exact fun q hq => hrun.whole q (mem_append_right _ hq)

def first : Packet := ⟨8, 1, 2, by decide⟩

def arrives (p : Packet) : List Op := [.send p, .mouse, .mouse, .mouse]

theorem mice_packets_whole_one :
    ∃ p ∈ (runOps step (arrives first ++ [.mouseIrq, .mouseIrq, .mouseIrq, .read false 3]) Ps2.boot).2.sent,
      [8, 1, 2] = p.bytes :=
  mice_packets_whole (arrives first ++ [.mouseIrq, .mouseIrq, .mouseIrq, .read false 3])
    (by simp [Along, arrives, Clean, step, Ps2.boot, first, Packet.bytes, ps2MouseIrq, inbData])
    _ (by decide +kernel)

/-- A poll after the first of three interrupts drops the rest of the packet. -/
theorem packet_torn : let s := (runOps step (arrives first ++ [.mouseIrq, .getc false []] ++
      arrives ⟨9, 3, 4, by decide⟩ ++ [.mouseIrq, .mouseIrq, .read false 3]) Ps2.boot).2
    s.got = [[8, 9, 3]] ∧ ∀ p ∈ s.sent, [8, 9, 3] ≠ p.bytes := by
  decide +kernel

end Obelisk.Mouse
