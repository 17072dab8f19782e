import Mathlib.Order.Lattice
import Obelisk.Lib.Ring
import Obelisk.Lib.Word

/-!
# The scheduler

`kernel/proc/scheduler.c` with its round-robin policy: one list of processes for each priority, a
bitmap of the lists that may be non-empty, a list of timed sleepers, and the timer interrupt.

Processes are addresses, with `0` for `NULL`. A context switch is the change of `curr`; statistics,
locks and the interrupt flag are left out.
-/

namespace Obelisk

open KLib Function

def maxPrio : ℕ := 140
def minTimeslice : ℤ := 1
def defTimeslice : ℤ := 10
def maxTimeslice : ℤ := 100
def tickMs : ℕ := 4

inductive ProcState
  | created
  | ready
  | running
  | blocked
  | sleeping
  | zombie
  | dead
  deriving DecidableEq, Repr

/-- What the scheduler reads and writes of `struct process`, besides its list entries. -/
structure Proc where
  state : ProcState
  /-- `PROC_FLAG_EXITING`. -/
  exiting : Bool
  priority : ℤ
  nice : ℤ
  timeSlice : ℤ
  wakeupTick : ℕ

/-- The list heads of the scheduler and the two list entries of a process. -/
inductive Node
  | queue (prio : ℕ)
  | sleepQueue
  | run (p : ℕ)
  | sleep (p : ℕ)
  deriving DecidableEq

/-- `list_entry`: the process of a list entry; a list head is the entry of no process. -/
def Node.proc : Node → ℕ
  | run p => p
  | sleep p => p
  | _ => 0

/-- The state of the scheduler. -/
structure Sched where
  links : Links Node
  procs : ℕ → Proc
  /-- The processes on `all_processes`. -/
  all : List ℕ
  nrRunning : ℕ
  bitmap : ℕ → BitVec 64
  curr : ℕ
  idle : ℕ
  clock : ℕ
  /-- `TIF_NEED_RESCHED`. -/
  needResched : Bool

namespace Sched

def updProc (s : Sched) (p : ℕ) (f : Proc → Proc) : Sched :=
  { s with procs := update s.procs p (f (s.procs p)) }

def setState (s : Sched) (p : ℕ) (st : ProcState) : Sched := s.updProc p ({ · with state := st })

def setLinks (s : Sched) (L : Links Node) : Sched := { s with links := L }

def runListLinked (s : Sched) (p : ℕ) : Bool :=
  p != 0 && s.links.next (.run p) != .run p && s.links.prev (.run p) != .run p

def sleepListLinked (s : Sched) (p : ℕ) : Bool :=
  p != 0 && s.links.next (.sleep p) != .sleep p && s.links.prev (.sleep p) != .sleep p

end Sched

/-- `process_schedulable`, for a process that is not `NULL`. -/
def Proc.schedulable (p : Proc) : Bool :=
  p.state != .zombie && p.state != .dead && !p.exiting

/-! ## The round-robin policy -/

def rrTimeSlice (p : Proc) : ℤ :=
  let slice :=
    if p.nice < 0 then defTimeslice + -p.nice * 2
    else if 0 < p.nice then defTimeslice - p.nice / 2
    else defTimeslice
  min (max slice minTimeslice) maxTimeslice

def prioBit (prio : ℕ) : BitVec 64 := 1#64 <<< (prio % 64)

def rrEnqueue (p : ℕ) (s : Sched) : Sched :=
  let prio := (min (max (s.procs p).priority 0) (maxPrio - 1)).toNat
  if p == 0 || s.runListLinked p then s
  else
    { s with
      links := s.links.addTail (.run p) (.queue prio)
      bitmap := update s.bitmap (prio / 64) (s.bitmap (prio / 64) ||| prioBit prio)
      nrRunning := s.nrRunning + 1 }

def rrDequeue (p : ℕ) (s : Sched) : Sched :=
  let prio := (s.procs p).priority.toNat
  if p == 0 || !s.runListLinked p then s
  else
    let L := (s.links.del (.run p)).init (.run p)
    { s with
      links := L
      bitmap := if L.empty (.queue prio) then
          update s.bitmap (prio / 64) (s.bitmap (prio / 64) &&& ~~~ prioBit prio)
        else s.bitmap
      nrRunning := if 0 < s.nrRunning then s.nrRunning - 1 else s.nrRunning }

/-- The inner loop of `rr_pick_next` over the bits of word `w` that are set, from the lowest on, with
the bits not yet visited: the process found, and the bitmap without the stale bits. -/
def pickBits (L : Links Node) (w : ℕ) : List ℕ → BitVec 64 → (ℕ → BitVec 64) → Option ℕ × (ℕ → BitVec 64)
  | [], _, bm => (none, bm)
  | b :: bs, bits, bm =>
    if !bits.getLsbD b then pickBits L w bs bits bm
    else
      let prio := w * 64 + b
      if maxPrio ≤ prio then (none, bm)
      else if !L.empty (.queue prio) then (some (L.next (.queue prio)).proc, bm)
      else pickBits L w bs bits (update bm w (bm w &&& ~~~ (1#64 <<< b)))

def pickWords (L : Links Node) : List ℕ → (ℕ → BitVec 64) → Option ℕ × (ℕ → BitVec 64)
  | [], bm => (none, bm)
  | w :: ws, bm =>
    match pickBits L w (List.range 64) (bm w) bm with
    | (some p, bm) => (some p, bm)
    | (none, bm) => pickWords L ws bm

def rrPickNext (s : Sched) : ℕ × Sched :=
  let r := pickWords s.links (List.range (maxPrio / 64 + 1)) s.bitmap
  (r.1.getD s.idle, { s with bitmap := r.2 })

def rrTick (p : ℕ) (s : Sched) : Sched :=
  if p != 0 && p != s.idle then
    let s := s.updProc p fun q => { q with timeSlice := q.timeSlice - 1 }
    if (s.procs p).timeSlice ≤ 0 then
      if 0 < s.nrRunning then { s with needResched := true }
      else s.updProc p fun q => { q with timeSlice := rrTimeSlice q }
    else s
  else s

/-! ## The core of the scheduler -/

def unlinkSleeper (p : ℕ) (s : Sched) : Sched :=
  if s.sleepListLinked p then
    (s.setLinks ((s.links.del (.sleep p)).init (.sleep p))).updProc p ({ · with wakeupTick := 0 })
  else s

def schedulerEnqueue (p : ℕ) (s : Sched) : Sched :=
  if p == 0 || p == s.idle then s
  else if !(s.procs p).schedulable then s
  else
    let s := unlinkSleeper p s
    let s := s.updProc p fun q => { q with state := .ready, timeSlice := rrTimeSlice q }
    rrEnqueue p s

def schedulerDequeue (p : ℕ) (s : Sched) : Sched :=
  if p == 0 || p == s.idle then s else rrDequeue p s

def Sched.parks (s : Sched) : Bool :=
  s.curr != 0 && s.curr != s.idle && (s.procs s.curr).state == .running && (s.procs s.curr).schedulable

def park (s : Sched) : Sched :=
  if s.parks then rrEnqueue s.curr (s.setState s.curr .ready) else s

def dispatch (next : ℕ) (s : Sched) : Sched :=
  let s :=
    if next != 0 && next != s.idle && (s.procs next).state == .ready then rrDequeue next s else s
  let next := if next == 0 then s.idle else next
  let s :=
    if next != 0 && (s.procs next).timeSlice ≤ 0 then
      s.updProc next fun q => { q with timeSlice := rrTimeSlice q }
    else s
  let s := if next != 0 then s.setState next .running else s
  { s with curr := next, needResched := false }

def schedule (s : Sched) : Sched :=
  let r := rrPickNext (park s)
  let next := if r.1 == 0 then r.2.idle else r.1
  let next :=
    if next != 0 && next != r.2.idle && !(r.2.procs next).schedulable then r.2.idle else next
  dispatch next r.2

/-- `list_for_each_safe` over the sleepers in `scheduler_tick`; `none` when the fuel does not do. -/
def sleepLoop : ℕ → Node → Node → Sched → Option Sched
  | 0, _, _, _ => none
  | fuel + 1, pos, n, s =>
    if pos == .sleepQueue then some s
    else
      let sp := pos.proc
      let s :=
        if (s.procs sp).state == .sleeping && (s.procs sp).wakeupTick ≤ s.clock then
          let s := s.setLinks ((s.links.del (.sleep sp)).init (.sleep sp))
          let s := s.updProc sp ({ · with wakeupTick := 0 })
          schedulerEnqueue sp s
        else s
      sleepLoop fuel n (s.links.next n) s

def wakeSleepers (s : Sched) : Option Sched :=
  let pos := s.links.next .sleepQueue
  sleepLoop (s.all.length + 1) pos (s.links.next pos) s

def schedulerTick (s : Sched) : Option Sched :=
  let s := if s.curr != 0 then rrTick s.curr s else s
  wakeSleepers { s with clock := u64 (s.clock + tickMs) }

def timerHandler (s : Sched) : Option Sched :=
  (schedulerTick s).map fun s => if s.needResched then schedule s else s

/-- `scheduler_exit`; `none` is the panic when it would return. -/
def schedulerExit (s : Sched) : Option Sched :=
  if s.curr == 0 then none
  else
    let t := schedule (s.updProc s.curr fun q => { q with exiting := true, state := .zombie })
    if t.curr == s.curr then none else some t

def stopRunning (p : ℕ) (st : ProcState) (s : Sched) : Sched :=
  let s := s.setState p st
  let s := if s.runListLinked p then schedulerDequeue p s else s
  if s.sleepListLinked p then s.setLinks ((s.links.del (.sleep p)).init (.sleep p)) else s

def schedulerSleep (p : ℕ) (s : Sched) : Sched :=
  if p == 0 then s
  else schedule ((stopRunning p .blocked s).updProc p ({ · with wakeupTick := 0 }))

def schedulerSleepTimeout (p timeoutMs : ℕ) (s : Sched) : Sched :=
  if p == 0 then s
  else
    let s := stopRunning p .sleeping s
    let s := s.updProc p ({ · with wakeupTick := u64 (s.clock + timeoutMs) })
    schedule (s.setLinks (s.links.addTail (.sleep p) .sleepQueue))

def schedulerWake (p : ℕ) (s : Sched) : Sched :=
  if p == 0 then s
  else if (s.procs p).state == .blocked || (s.procs p).state == .sleeping then
    let s := schedulerEnqueue p (unlinkSleeper p s)
    if s.curr == s.idle || (s.curr != 0 && (s.procs p).priority < (s.procs s.curr).priority) then
      { s with needResched := true }
    else s
  else s

def schedulerInit (idleProcess : ℕ) (s : Sched) : Sched :=
  let L := (List.range maxPrio).foldl (fun L i => L.init (.queue i)) s.links
  { s with
    links := L
    nrRunning := 0
    bitmap := fun _ => 0#64
    curr := 0
    idle := idleProcess
    clock := 0
    needResched := false }

def createProc (p : ℕ) (priority nice : ℤ) (s : Sched) : Sched :=
  { s with
    links := (s.links.init (.run p)).init (.sleep p)
    procs := update s.procs p ⟨.created, false, priority, nice, defTimeslice, 0⟩
    all := p :: s.all }

/-! ## Runs -/

/-- The calls of the scheduler, and the timer. -/
inductive SchedOp
  | create (p : ℕ) (priority nice : ℤ)
  | enqueue (p : ℕ)
  | schedule
  | yield
  | tick
  | timer
  | sleep
  | sleepTimeout (timeoutMs : ℕ)
  | wake (p : ℕ)
  | exit

def SchedOp.exec : SchedOp → Sched → Option Sched
  | create p priority nice, s => some (createProc p priority nice s)
  | enqueue p, s => some (schedulerEnqueue p s)
  | schedule, s => some (Obelisk.schedule s)
  | yield, s => some (Obelisk.schedule s)
  | tick, s => schedulerTick s
  | timer, s => timerHandler s
  | sleep, s => some (schedulerSleep s.curr s)
  | sleepTimeout timeoutMs, s => some (schedulerSleepTimeout s.curr timeoutMs s)
  | wake p, s => some (schedulerWake p s)
  | exit, s => schedulerExit s

/-- New processes get memory of their own and a priority in range; `scheduler_enqueue` is called for
a process that has not run yet and `scheduler_wake` for any process. -/
def SchedOp.Allowed : SchedOp → Sched → Prop
  | create p priority _, s => p ≠ 0 ∧ p ∉ s.all ∧ 0 ≤ priority ∧ priority < maxPrio
  | enqueue p, s => p ∈ s.all ∧ ((s.procs p).state = .created ∨ (s.procs p).state = .ready)
  | wake p, s => p = 0 ∨ p ∈ s.all
  | _, _ => True

/-- The state in which `scheduler_init` is called. -/
structure Boot (idleProcess : ℕ) (s : Sched) : Prop where
  idle_mem : idleProcess ∈ s.all
  sleepQueue : s.links.Solo .sleepQueue
  solo : ∀ p ∈ s.all, s.links.Solo (.run p) ∧ s.links.Solo (.sleep p)
  ne_zero : ∀ p ∈ s.all, p ≠ 0
  priority : ∀ p ∈ s.all, 0 ≤ (s.procs p).priority ∧ (s.procs p).priority < maxPrio
  state : ∀ p ∈ s.all, ((s.procs p).state = .created ∨ (s.procs p).state = .ready) ∧ (s.procs p).exiting = false

/-- The states that the calls lead to. -/
inductive SchedReach : Sched → Prop
  | init {s : Sched} {idleProcess : ℕ} : Boot idleProcess s → SchedReach (schedulerInit idleProcess s)
  | step {s s' : Sched} (op : SchedOp) : SchedReach s → op.Allowed s → op.exec s = some s' → SchedReach s'

end Obelisk
