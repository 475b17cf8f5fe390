import Mathlib
import Greptime.Foundations.Ledger

/-!
# The write buffer's memory accounting (`WriteBufferManagerImpl`, `AllocTracker`)

The engine has one `WriteBufferManagerImpl`.  It keeps two `AtomicUsize` counters: the memory
held by memtables (`memory_used`), and the part of it not yet scheduled to be freed, which is
the mutable memtables' (`memory_active`).  The worker reads them to decide whether to flush
(`should_flush_engine`) and whether to stall writes (`should_stall`).  Every memtable counts
what it allocates with an `AllocTracker` and reports it to the manager: `on_allocation`
reserves the bytes, `done_allocating` (called when the memtable is frozen) schedules them to be
freed, and dropping the tracker frees them.

A tracker's methods run on any thread, and each is a few relaxed atomic accesses, so calls of
different trackers, and calls of one tracker, interleave.  The model takes every access as one
step.  A call starts with its first access and, between two accesses, stands at a `Pc` that
names the access it makes next; an event starts a call or lets one call in flight make its next
access.  Rust's ownership rules are the condition `owned` on events: a dropped tracker takes no
call, and `drop` runs alone.  A `usize` is a word of 64 bits, and the counters wrap as
`fetch_add` and `fetch_sub` do.

What is proved:

* run alone, each call does what its method's code does in sequence (`runAlone`);
* over every interleaving, `memory_used` with the reservations in flight is the bytes of the
  trackers not dropped, and `memory_active` with them is the bytes not yet scheduled to be
  freed and besides them the bytes of every allocation made after its tracker's
  `done_allocating` loaded `bytes_allocated`: those stay in `memory_active` for good
  (`run_accounting`);
* so where no memtable is written once it is frozen, as the region worker keeps it, at every
  point with no call in flight `memory_used` is the bytes of the live trackers and
  `memory_active` those of the live trackers not done allocating, and the manager decides on
  them (`run_quiescent`).

Each access moves the two balances by a named amount (`Slot.Wf.tick_balance`,
`Slot.start_used`, `Slot.start_active`), under the invariant `Slot.Wf` that every reachable
tracker meets; `Ledger.AllowedRun.along_eq` adds the moves up over a run.
-/

namespace Greptime

namespace WriteBuffer

/-! ## The manager and the trackers -/

/-- `WriteBufferManagerImpl`: the engine's write buffer size, the part of it for mutable
memtables, and the two counters.  The notifier that wakes the worker is left out. -/
structure WriteBufferManagerImpl where
  globalWriteBufferSize : BitVec 64
  mutableLimit : BitVec 64
  memoryUsed : BitVec 64
  memoryActive : BitVec 64
  deriving DecidableEq, Repr

namespace WriteBufferManagerImpl

/-- `get_mutable_limit`: half of the write buffer. -/
def getMutableLimit (globalWriteBufferSize : BitVec 64) : BitVec 64 :=
  globalWriteBufferSize / 2

/-- `WriteBufferManagerImpl::new`. -/
def new (globalWriteBufferSize : BitVec 64) : WriteBufferManagerImpl :=
  ⟨globalWriteBufferSize, getMutableLimit globalWriteBufferSize, 0, 0⟩

/-- `mutable_usage`. -/
def mutableUsage (m : WriteBufferManagerImpl) : BitVec 64 := m.memoryActive

/-- `memory_usage`. -/
def memoryUsage (m : WriteBufferManagerImpl) : BitVec 64 := m.memoryUsed

/-- `should_flush_engine`: the mutable memtables are over their limit, or the memtables fill the
write buffer and at least half of it is mutable. -/
def shouldFlushEngine (m : WriteBufferManagerImpl) : Bool :=
  if m.mutableUsage > m.mutableLimit then true
  else if m.memoryUsage ≥ m.globalWriteBufferSize then
    decide (m.mutableUsage ≥ m.globalWriteBufferSize / 2)
  else false

/-- `should_stall`. -/
def shouldStall (m : WriteBufferManagerImpl) : Bool :=
  decide (m.memoryUsage ≥ m.globalWriteBufferSize)

/-- `memory_used.fetch_add(mem)`. -/
@[simps] def addUsed (m : WriteBufferManagerImpl) (mem : BitVec 64) : WriteBufferManagerImpl :=
  { m with memoryUsed := m.memoryUsed + mem }

/-- `memory_active.fetch_add(mem)`. -/
@[simps] def addActive (m : WriteBufferManagerImpl) (mem : BitVec 64) : WriteBufferManagerImpl :=
  { m with memoryActive := m.memoryActive + mem }

/-- `reserve_mem`: two accesses, to `memory_used` and then to `memory_active`. -/
def reserveMem (m : WriteBufferManagerImpl) (mem : BitVec 64) : WriteBufferManagerImpl :=
  (m.addUsed mem).addActive mem

/-- `schedule_free_mem`: `memory_active.fetch_sub(mem)`. -/
@[simps] def scheduleFreeMem (m : WriteBufferManagerImpl) (mem : BitVec 64) :
    WriteBufferManagerImpl :=
  { m with memoryActive := m.memoryActive - mem }

/-- `free_mem`: `memory_used.fetch_sub(mem)`, then the notifier, which is left out. -/
@[simps] def freeMem (m : WriteBufferManagerImpl) (mem : BitVec 64) : WriteBufferManagerImpl :=
  { m with memoryUsed := m.memoryUsed - mem }

end WriteBufferManagerImpl

/-- `AllocTracker`: whether it reports to the manager (`write_buffer_manager` is `Some`; every
tracker that reports, reports to the engine's one manager), the bytes it counted, and whether
its memtable is done allocating. -/
structure AllocTracker where
  writeBufferManager : Bool
  bytesAllocated : BitVec 64
  isDoneAllocating : Bool
  deriving DecidableEq, Repr

namespace AllocTracker

/-- `AllocTracker::new`. -/
def new (writeBufferManager : Bool) : AllocTracker := ⟨writeBufferManager, 0, false⟩

/-- `on_allocation`, run alone; the `WRITE_BUFFER_BYTES` metric is left out. -/
def onAllocation (t : AllocTracker) (m : WriteBufferManagerImpl) (bytes : BitVec 64) :
    AllocTracker × WriteBufferManagerImpl :=
  ({ t with bytesAllocated := t.bytesAllocated + bytes },
    if t.writeBufferManager then m.reserveMem bytes else m)

/-- `done_allocating`, run alone: with a manager, the `compare_exchange(false, true)` of
`is_done_allocating` wins once, and that call schedules the bytes counted to be freed. -/
def doneAllocating (t : AllocTracker) (m : WriteBufferManagerImpl) :
    AllocTracker × WriteBufferManagerImpl :=
  if t.writeBufferManager && !t.isDoneAllocating then
    ({ t with isDoneAllocating := true }, m.scheduleFreeMem t.bytesAllocated)
  else (t, m)

/-- `Drop for AllocTracker`, run alone. -/
def drop (t : AllocTracker) (m : WriteBufferManagerImpl) : AllocTracker × WriteBufferManagerImpl :=
  let r := if !t.isDoneAllocating then t.doneAllocating m else (t, m)
  (r.1, if r.1.writeBufferManager then r.2.freeMem r.1.bytesAllocated else r.2)

end AllocTracker

/-- A method of a tracker. -/
inductive Method
  | onAllocation (bytes : BitVec 64)
  | doneAllocating
  | drop
  deriving DecidableEq, Repr

/-- A method run alone, as its code does it in sequence. -/
def Method.sequential : Method → AllocTracker → WriteBufferManagerImpl →
    AllocTracker × WriteBufferManagerImpl
  | .onAllocation bytes, t, m => t.onAllocation m bytes
  | .doneAllocating, t, m => t.doneAllocating m
  | .drop, t, m => t.drop m

/-! ## Calls in flight -/

/-- A call between two of its atomic accesses, named by the access it makes next.  `inDrop`
marks the `done_allocating` that `drop` calls. -/
inductive Pc
  /-- `on_allocation`'s `reserve_mem`, its add to `memory_used`. -/
  | reserveUsed (bytes : BitVec 64)
  /-- `on_allocation`'s `reserve_mem`, its add to `memory_active`. -/
  | reserveActive (bytes : BitVec 64)
  /-- `done_allocating` has won its `compare_exchange`: the load of `bytes_allocated`. -/
  | loadAllocated (inDrop : Bool)
  /-- `done_allocating`'s `schedule_free_mem(mem)`. -/
  | scheduleFree (mem : BitVec 64) (inDrop : Bool)
  /-- `drop`'s load of `bytes_allocated`. -/
  | loadFreed
  /-- `drop`'s `free_mem(mem)`. -/
  | freeUsed (mem : BitVec 64)
  deriving DecidableEq, Repr

/-- A tracker alive, being dropped, or gone. -/
inductive Life
  | alive
  | dropping
  | dropped
  deriving DecidableEq, Repr

/-- A tracker and the calls of its methods in flight. -/
structure Slot where
  tracker : AllocTracker
  calls : List Pc
  life : Life
  deriving DecidableEq, Repr

namespace Pc

/-- The next access of a call of the tracker `t`: the manager after it, and where the call
stands then, unless it returns. -/
def next (t : AllocTracker) (m : WriteBufferManagerImpl) : Pc → WriteBufferManagerImpl × Option Pc
  | .reserveUsed bytes => (m.addUsed bytes, some (.reserveActive bytes))
  | .reserveActive bytes => (m.addActive bytes, none)
  | .loadAllocated inDrop => (m, some (.scheduleFree t.bytesAllocated inDrop))
  | .scheduleFree mem inDrop => (m.scheduleFreeMem mem, if inDrop then some .loadFreed else none)
  | .loadFreed => (m, if t.writeBufferManager then some (.freeUsed t.bytesAllocated) else none)
  | .freeUsed mem => (m.freeMem mem, none)

/-- Whether the call is `drop`'s. -/
def inDrop : Pc → Bool
  | .reserveUsed _ | .reserveActive _ => false
  | .loadAllocated inDrop | .scheduleFree _ inDrop => inDrop
  | .loadFreed | .freeUsed _ => true

/-- Whether the call is about to load the bytes it schedules to be freed. -/
def isLoadAllocated : Pc → Bool
  | .loadAllocated _ => true
  | .reserveUsed _ | .reserveActive _ | .scheduleFree .. | .loadFreed | .freeUsed _ => false

/-- What the call has still to add to `memory_used`. -/
def pendingUsed : Pc → BitVec 64
  | .reserveUsed bytes => bytes
  | .reserveActive _ | .loadAllocated _ | .scheduleFree .. | .loadFreed | .freeUsed _ => 0

/-- What the call has still to add to `memory_active`. -/
def pendingActive : Pc → BitVec 64
  | .reserveUsed bytes | .reserveActive bytes => bytes
  | .loadAllocated _ | .scheduleFree .. | .loadFreed | .freeUsed _ => 0

/-- What the call has loaded and still has to take from `memory_active`. -/
def scheduled : Pc → BitVec 64
  | .scheduleFree mem _ => mem
  | .reserveUsed _ | .reserveActive _ | .loadAllocated _ | .loadFreed | .freeUsed _ => 0

attribute [simp] inDrop.eq_1 inDrop.eq_2 inDrop.eq_3 inDrop.eq_4 inDrop.eq_5 inDrop.eq_6
  isLoadAllocated.eq_1 isLoadAllocated.eq_2 isLoadAllocated.eq_3 isLoadAllocated.eq_4
  isLoadAllocated.eq_5 isLoadAllocated.eq_6 pendingUsed.eq_1 pendingUsed.eq_2 pendingUsed.eq_3
  pendingUsed.eq_4 pendingUsed.eq_5 pendingUsed.eq_6 pendingActive.eq_1 pendingActive.eq_2
  pendingActive.eq_3 pendingActive.eq_4 pendingActive.eq_5 pendingActive.eq_6 scheduled.eq_1
  scheduled.eq_2 scheduled.eq_3 scheduled.eq_4 scheduled.eq_5 scheduled.eq_6

end Pc

namespace Slot

/-- `done_allocating`'s first access: with a manager, the `compare_exchange(false, true)` of
`is_done_allocating`; the call goes on only if it wins. -/
def doneAllocatingCas (s : Slot) (inDrop : Bool) : Slot :=
  if s.tracker.writeBufferManager && !s.tracker.isDoneAllocating then
    { s with tracker := { s.tracker with isDoneAllocating := true },
             calls := s.calls ++ [.loadAllocated inDrop] }
  else s

/-- A call's first access: `on_allocation`'s `bytes_allocated.fetch_add`, followed by
`reserve_mem` with a manager; `done_allocating`'s `compare_exchange`; `drop`'s load of
`is_done_allocating`, followed, when it is false, by `done_allocating`, whose
`compare_exchange` wins as `drop` runs alone. -/
def start (s : Slot) : Method → Slot
  | .onAllocation bytes =>
    { s with tracker := { s.tracker with bytesAllocated := s.tracker.bytesAllocated + bytes },
             calls := if s.tracker.writeBufferManager then s.calls ++ [.reserveUsed bytes]
               else s.calls }
  | .doneAllocating => s.doneAllocatingCas false
  | .drop =>
    if s.tracker.writeBufferManager && !s.tracker.isDoneAllocating then
      { s with life := .dropping }.doneAllocatingCas true
    else { s with calls := s.calls ++ [.loadFreed], life := .dropping }

/-- The `i`-th call in flight makes its next access: the manager after it, and the slot.  When
`drop` returns, the tracker is gone. -/
def tick (s : Slot) (m : WriteBufferManagerImpl) (i : ℕ) : WriteBufferManagerImpl × Slot :=
  match s.calls[i]? with
  | none => (m, s)
  | some pc =>
    match pc.next s.tracker m with
    | (m', some pc') => (m', { s with calls := s.calls.set i pc' })
    | (m', none) =>
      (m', { s with calls := s.calls.eraseIdx i, life := if pc.inDrop then .dropped else s.life })

end Slot

/-- The engine's manager and every tracker made so far, with the calls in flight. -/
structure Engine where
  manager : WriteBufferManagerImpl
  slots : List Slot
  deriving DecidableEq, Repr

/-- What happens next: a tracker is made, a call starts, or the `i`-th call in flight of the
tracker `t` makes its next access. -/
inductive Event
  | new (writeBufferManager : Bool)
  | call (t : ℕ) (method : Method)
  | tick (t i : ℕ)
  deriving DecidableEq, Repr

namespace Engine

/-- A new engine with no memtable. -/
def start (globalWriteBufferSize : BitVec 64) : Engine :=
  ⟨.new globalWriteBufferSize, []⟩

/-- One event. -/
def step (e : Engine) : Event → Engine
  | .new writeBufferManager =>
    { e with slots := e.slots ++ [⟨.new writeBufferManager, [], .alive⟩] }
  | .call t method =>
    match e.slots[t]? with
    | some s => { e with slots := e.slots.set t (s.start method) }
    | none => e
  | .tick t i =>
    match e.slots[t]? with
    | some s => ⟨(s.tick e.manager i).1, e.slots.set t (s.tick e.manager i).2⟩
    | none => e

/-- A run of events. -/
def run (e : Engine) (events : List Event) : Engine := events.foldl step e

/-- What Rust's ownership lets happen: a call needs a live tracker, and `drop`, which takes the
tracker by `&mut`, one with no call in flight. -/
def owned (e : Engine) : Event → Bool
  | .new _ | .tick .. => true
  | .call t .drop => (e.slots[t]?).any fun s => s.life == .alive && s.calls.isEmpty
  | .call t (.onAllocation _) | .call t .doneAllocating => (e.slots[t]?).any (·.life == .alive)

/-- Ownership, and the region's rule that a memtable done allocating is no longer written. -/
def disciplined (e : Engine) : Event → Bool
  | .call t (.onAllocation bytes) =>
    e.owned (.call t (.onAllocation bytes)) && (e.slots[t]?).any (!·.tracker.isDoneAllocating)
  | ev => e.owned ev

/-- Whether no call is in flight. -/
def quiescent (e : Engine) : Bool := e.slots.all (·.calls.isEmpty)

/-- A call run alone, as its method's code does it: the manager and the tracker after it. -/
def afterAlone (e : Engine) (t : ℕ) (s : Slot) (method : Method) : Engine :=
  ⟨(method.sequential s.tracker e.manager).2,
    e.slots.set t
      ⟨(method.sequential s.tracker e.manager).1, s.calls,
        if method = .drop then .dropped else s.life⟩⟩

end Engine

/-! ## The bytes each tracker holds in the counters -/

namespace Slot

/-- The bytes a tracker holds in `memory_used`: all it counted, until it is dropped. -/
def usedBytes (s : Slot) : BitVec 64 :=
  if s.tracker.writeBufferManager && s.life != .dropped then s.tracker.bytesAllocated else 0

/-- The bytes a tracker holds in `memory_active`: all it counted while no `done_allocating` has
loaded them, and what a call has loaded and not yet taken out. -/
def activeBytes (s : Slot) : BitVec 64 :=
  (if s.tracker.writeBufferManager &&
      (!s.tracker.isDoneAllocating || s.calls.any Pc.isLoadAllocated)
    then s.tracker.bytesAllocated else 0) + (s.calls.map Pc.scheduled).sum

/-- What the calls in flight have still to add to `memory_used`. -/
def pendingUsed (s : Slot) : BitVec 64 := (s.calls.map Pc.pendingUsed).sum

/-- What the calls in flight have still to add to `memory_active`. -/
def pendingActive (s : Slot) : BitVec 64 := (s.calls.map Pc.pendingActive).sum

/-- The bytes of a live tracker not done allocating: its mutable memtable's. -/
def mutableBytes (s : Slot) : BitVec 64 :=
  if s.tracker.writeBufferManager && !s.tracker.isDoneAllocating && s.life != .dropped
  then s.tracker.bytesAllocated else 0

/-- The bytes of a call that `memory_active` keeps for good: an allocation on a tracker whose
`done_allocating` has loaded `bytes_allocated`. -/
def late (s : Slot) : Method → BitVec 64
  | .onAllocation bytes =>
    if s.tracker.writeBufferManager && s.tracker.isDoneAllocating &&
        !s.calls.any Pc.isLoadAllocated
    then bytes else 0
  | .doneAllocating | .drop => 0

end Slot

namespace Engine

/-- The bytes the trackers hold in `memory_used`. -/
def usedBytes (e : Engine) : BitVec 64 := (e.slots.map Slot.usedBytes).sum

/-- The bytes the trackers hold in `memory_active`. -/
def activeBytes (e : Engine) : BitVec 64 := (e.slots.map Slot.activeBytes).sum

/-- What the calls in flight have still to add to `memory_used`. -/
def pendingUsed (e : Engine) : BitVec 64 := (e.slots.map Slot.pendingUsed).sum

/-- What the calls in flight have still to add to `memory_active`. -/
def pendingActive (e : Engine) : BitVec 64 := (e.slots.map Slot.pendingActive).sum

/-- The bytes of the live trackers not done allocating. -/
def mutableBytes (e : Engine) : BitVec 64 := (e.slots.map Slot.mutableBytes).sum

/-- The bytes of an event that `memory_active` keeps for good. -/
def late (e : Engine) : Event → BitVec 64
  | .call t method => ((e.slots[t]?).map (·.late method)).getD 0
  | .new _ | .tick .. => 0

/-- The bytes that `memory_active` keeps for good along a run. -/
def lateBytes (e : Engine) (events : List Event) : BitVec 64 := Ledger.along step late e events

end Engine

/-! ## Steps -/

namespace WriteBufferManagerImpl

variable (m : WriteBufferManagerImpl) (mem : BitVec 64)

@[simp] lemma reserveMem_memoryUsed : (m.reserveMem mem).memoryUsed = m.memoryUsed + mem := rfl

@[simp] lemma reserveMem_memoryActive : (m.reserveMem mem).memoryActive = m.memoryActive + mem :=
  rfl

@[simp] lemma reserveMem_globalWriteBufferSize :
    (m.reserveMem mem).globalWriteBufferSize = m.globalWriteBufferSize := rfl

@[simp] lemma reserveMem_mutableLimit : (m.reserveMem mem).mutableLimit = m.mutableLimit := rfl

end WriteBufferManagerImpl

namespace Slot

variable {s : Slot} {m m' : WriteBufferManagerImpl} {i : ℕ} {pc pc' : Pc}

lemma tick_of_getElem?_none (h : s.calls[i]? = none) : s.tick m i = (m, s) := by
  simp [tick, h]

/-- A call that goes on stays at its place. -/
lemma tick_of_next_some (h : s.calls[i]? = some pc) (hnext : pc.next s.tracker m = (m', some pc')) :
    s.tick m i = (m', { s with calls := s.calls.set i pc' }) := by
  simp [tick, h, hnext]

/-- A call that returns leaves, and the tracker is gone when it was `drop`. -/
lemma tick_of_next_none (h : s.calls[i]? = some pc) (hnext : pc.next s.tracker m = (m', none)) :
    s.tick m i =
      (m', { s with calls := s.calls.eraseIdx i, life := if pc.inDrop then .dropped else s.life }) := by
  simp [tick, h, hnext]

end Slot

namespace Engine

variable {e : Engine} {t : ℕ} {s : Slot}

lemma step_call (hs : e.slots[t]? = some s) (method : Method) :
    e.step (.call t method) = { e with slots := e.slots.set t (s.start method) } := by
  simp [step, hs]

lemma step_tick (hs : e.slots[t]? = some s) (i : ℕ) :
    e.step (.tick t i) = ⟨(s.tick e.manager i).1, e.slots.set t (s.tick e.manager i).2⟩ := by
  simp [step, hs]

/-- Run alone to its end, each call does what its method's code does in sequence: the first
access and at most four more leave the manager and the tracker as the sequential code does,
and the other calls in flight where they were. -/
theorem runAlone (e : Engine) {t : ℕ} {s : Slot} (hs : e.slots[t]? = some s) (method : Method)
    (hdrop : method = .drop → s.calls = []) :
    e.run (.call t method :: List.replicate 4 (.tick t s.calls.length)) =
      e.afterAlone t s method := by
  have ht : t < e.slots.length := (List.getElem?_eq_some_iff.mp hs).1
  obtain ⟨⟨wbm, bytes, done⟩, calls, life⟩ := s
  -- each access of the call is one `Pc.next`; the calls it pushed are gone at its end
  cases method with
  | onAllocation b =>
    cases wbm <;>
      simp [run, step_call hs, step_tick, ht, Slot.start, Slot.tick, Pc.next, Pc.inDrop,
        afterAlone, Method.sequential, AllocTracker.onAllocation,
        WriteBufferManagerImpl.reserveMem, List.eraseIdx_append_of_length_le]
  | doneAllocating =>
    cases wbm <;> cases done <;>
      simp [run, step_call hs, step_tick, ht, Slot.start, Slot.doneAllocatingCas, Slot.tick,
        Pc.next, Pc.inDrop, afterAlone, Method.sequential, AllocTracker.doneAllocating,
        List.eraseIdx_append_of_length_le]
  | drop =>
    obtain rfl : calls = [] := hdrop rfl
    cases wbm <;> cases done <;>
      simp [run, step_call hs, step_tick, ht, Slot.start, Slot.doneAllocatingCas, Slot.tick,
        Pc.next, Pc.inDrop, afterAlone, Method.sequential, AllocTracker.drop,
        AllocTracker.doneAllocating]

/-- `done_allocating` run alone while another thread's `on_allocation` stands between its two
adds. -/
theorem runAlone_doneAllocating :
    ((start 64).run [.new true, .call 0 (.onAllocation 5), .tick 0 0]).slots[0]? =
        some ⟨⟨true, 5, false⟩, [.reserveActive 5], .alive⟩ ∧
      ((.doneAllocating : Method) = .drop → [Pc.reserveActive 5] = []) ∧
      ((start 64).run [.new true, .call 0 (.onAllocation 5), .tick 0 0]).run
          (.call 0 .doneAllocating :: List.replicate 4 (.tick 0 1)) =
        ((start 64).run [.new true, .call 0 (.onAllocation 5), .tick 0 0]).afterAlone 0
          ⟨⟨true, 5, false⟩, [.reserveActive 5], .alive⟩ .doneAllocating :=
  ⟨by decide, by decide,
    @runAlone ((start 64).run [.new true, .call 0 (.onAllocation 5), .tick 0 0]) 0
      ⟨⟨true, 5, false⟩, [.reserveActive 5], .alive⟩ (by decide) .doneAllocating (by decide)⟩

end Engine

/-! ## What every reachable tracker satisfies -/

/-- The calls a tracker can have in flight in each part of its life: `drop` runs alone, and no
call starts on a tracker being dropped. -/
def CallsFit : Life → List Pc → Prop
  | .alive, calls => ∀ pc ∈ calls, pc.inDrop = false
  | .dropping, calls => ∃ pc, calls = [pc] ∧ pc.inDrop = true
  | .dropped, calls => calls = []

lemma CallsFit.life_of_inDrop {life : Life} {calls : List Pc} (hfit : CallsFit life calls)
    {pc : Pc} (hpc : pc ∈ calls) (hdrop : pc.inDrop = true) : life = .dropping := by
  cases life with
  | alive => simp [hfit pc hpc] at hdrop
  | dropping => rfl
  | dropped =>
    simp only [CallsFit] at hfit
    simp [hfit] at hpc

/-- `drop`'s call is the only one in flight. -/
lemma CallsFit.eq_nil_of_dropping {l₁ l₂ : List Pc} {pc : Pc}
    (hfit : CallsFit .dropping (l₁ ++ pc :: l₂)) : l₁ = [] ∧ l₂ = [] ∧ pc.inDrop = true := by
  obtain ⟨x, hx, hxdrop⟩ := hfit
  cases l₁ <;> simp_all

/-- A call that goes on in place, `drop`'s if the old one was, fits the tracker's life. -/
lemma CallsFit.replace {life : Life} {l₁ l₂ : List Pc} {pc pc' : Pc}
    (hfit : CallsFit life (l₁ ++ pc :: l₂)) (hdrop : pc'.inDrop = pc.inDrop) :
    CallsFit life (l₁ ++ pc' :: l₂) := by
  cases life with
  | alive =>
    intro x hx
    simp only [List.mem_append, List.mem_cons] at hx
    rcases hx with hx | rfl | hx
    · exact hfit x (by simp [hx])
    · exact hdrop.trans (hfit pc (by simp))
    · exact hfit x (by simp [hx])
  | dropping =>
    obtain ⟨rfl, rfl, hpc⟩ := hfit.eq_nil_of_dropping
    exact ⟨pc', rfl, hdrop.trans hpc⟩
  | dropped => simp [CallsFit] at hfit

/-- A call that returns leaves calls that fit the tracker's life, which is over if it was
`drop`'s. -/
lemma CallsFit.remove {life : Life} {l₁ l₂ : List Pc} {pc : Pc}
    (hfit : CallsFit life (l₁ ++ pc :: l₂)) :
    CallsFit (if pc.inDrop then .dropped else life) (l₁ ++ l₂) := by
  cases life with
  | alive =>
    have hsub : l₁ ++ l₂ ⊆ l₁ ++ pc :: l₂ := ((List.sublist_cons_self pc l₂).append_left l₁).subset
    rw [hfit pc (by simp), if_neg Bool.false_ne_true]
    exact fun x hx => hfit x (hsub hx)
  | dropping =>
    obtain ⟨rfl, rfl, hpc⟩ := hfit.eq_nil_of_dropping
    simp [hpc, CallsFit]
  | dropped => simp [CallsFit] at hfit

namespace Pc

/-- A call that goes on after an access stays `drop`'s or not, is never about to load, and
frees only the tracker's bytes, and only with a manager. -/
lemma next_some {t : AllocTracker} {m m' : WriteBufferManagerImpl} {pc pc' : Pc}
    (h : pc.next t m = (m', some pc')) :
    pc'.inDrop = pc.inDrop ∧ pc'.isLoadAllocated = false ∧
      ∀ mem, pc' = .freeUsed mem → t.writeBufferManager = true ∧ mem = t.bytesAllocated := by
  cases pc with
  | reserveUsed | loadAllocated =>
    cases Option.some.inj (Prod.mk.inj h).2
    simp
  | reserveActive | freeUsed => simp [next] at h
  | scheduleFree mem inDrop =>
    cases inDrop
    · simp [next] at h
    · cases Option.some.inj (Prod.mk.inj h).2
      simp
  | loadFreed =>
    cases hm : t.writeBufferManager
    · simp [next, hm] at h
    · simp only [next, hm, if_true, Prod.mk.injEq, Option.some.injEq] at h
      obtain ⟨-, rfl⟩ := h
      simp

end Pc

namespace Slot

/-- What every reachable tracker satisfies: its calls fit its life, a `drop` about to free
frees the tracker's bytes, and one `done_allocating` at most, which has won its
`compare_exchange`, is about to load them; a tracker that `drop` has started on is done
allocating. -/
structure Wf (s : Slot) : Prop where
  fit : CallsFit s.life s.calls
  freeUsed : ∀ mem, .freeUsed mem ∈ s.calls →
    s.tracker.writeBufferManager = true ∧ mem = s.tracker.bytesAllocated
  loadAllocated : s.calls.any Pc.isLoadAllocated = true →
    s.tracker.writeBufferManager = true ∧ s.tracker.isDoneAllocating = true
  loading : s.calls.countP Pc.isLoadAllocated ≤ 1
  done : s.life ≠ .alive → s.tracker.writeBufferManager = true →
    s.tracker.isDoneAllocating = true

variable {s : Slot} {m : WriteBufferManagerImpl} {i : ℕ} {pc pc' : Pc}

lemma wf_new (writeBufferManager : Bool) :
    (⟨.new writeBufferManager, [], .alive⟩ : Slot).Wf :=
  ⟨by simp [CallsFit], by simp, by simp, by simp, by simp⟩

/-- A call that goes on in place keeps a tracker well formed. -/
lemma Wf.set (hw : s.Wf) (h : s.calls[i]? = some pc) (hdrop : pc'.inDrop = pc.inDrop)
    (hload : pc'.isLoadAllocated = false)
    (hfree : ∀ mem, pc' = .freeUsed mem →
      s.tracker.writeBufferManager = true ∧ mem = s.tracker.bytesAllocated) :
    { s with calls := s.calls.set i pc' }.Wf := by
  obtain ⟨l₁, l₂, hcalls, hset⟩ := Ledger.exists_set_split h pc'
  obtain ⟨fit, free, load, loading, done⟩ := hw
  rw [hcalls] at fit free load loading
  refine ⟨?_, ?_, ?_, ?_, done⟩ <;> simp only [hset]
  · exact fit.replace hdrop
  · intro mem hmem
    simp only [List.mem_append, List.mem_cons] at hmem
    rcases hmem with hmem | hmem | hmem
    · exact free mem (by simp [hmem])
    · exact hfree mem hmem.symm
    · exact free mem (by simp [hmem])
  · intro hany
    simp only [List.any_append, List.any_cons, hload, Bool.false_or] at hany
    refine load ?_
    simp only [List.any_append, List.any_cons, Bool.or_eq_true] at hany ⊢
    tauto
  · simp only [List.countP_append, List.countP_cons, hload, Bool.false_eq_true,
      if_false] at loading ⊢
    omega

/-- A call that returns keeps a tracker well formed; when it was `drop`, the tracker is gone. -/
lemma Wf.eraseIdx (hw : s.Wf) (h : s.calls[i]? = some pc) :
    { s with calls := s.calls.eraseIdx i,
             life := if pc.inDrop then .dropped else s.life }.Wf := by
  obtain ⟨l₁, l₂, hcalls, herase⟩ := Ledger.exists_eraseIdx_split h
  have hsub : l₁ ++ l₂ ⊆ l₁ ++ pc :: l₂ := ((List.sublist_cons_self pc l₂).append_left l₁).subset
  obtain ⟨fit, free, load, loading, done⟩ := hw
  rw [hcalls] at fit free load loading
  refine ⟨?_, ?_, ?_, ?_, ?_⟩ <;> simp only [herase]
  · exact fit.remove
  · exact fun mem hmem => free mem (hsub hmem)
  · intro hany
    refine load ?_
    simp only [List.any_append, List.any_cons, Bool.or_eq_true] at hany ⊢
    tauto
  · simp only [List.countP_append, List.countP_cons] at loading ⊢
    omega
  · -- only `drop` ends a tracker's life, and it had started it
    intro hlife hm
    refine done ?_ hm
    cases hdrop : pc.inDrop
    · simpa [hdrop] using hlife
    · simp [fit.life_of_inDrop (by simp) hdrop]

/-- Every access keeps a tracker well formed. -/
lemma Wf.tick (hw : s.Wf) (m : WriteBufferManagerImpl) (i : ℕ) : (s.tick m i).2.Wf := by
  cases h : s.calls[i]? with
  | none => rwa [tick_of_getElem?_none h]
  | some pc =>
    cases hnext : pc.next s.tracker m with
    | mk m' next =>
      cases next with
      | none =>
        rw [tick_of_next_none h hnext]
        exact hw.eraseIdx h
      | some pc' =>
        obtain ⟨hdrop, hload, hfree⟩ := Pc.next_some hnext
        rw [tick_of_next_some h hnext]
        exact hw.set h hdrop hload hfree

/-- A call that ownership lets start keeps a tracker well formed. -/
lemma Wf.start (hw : s.Wf) (halive : s.life = .alive) (method : Method)
    (hdrop : method = .drop → s.calls = []) : (s.start method).Wf := by
  obtain ⟨⟨wbm, bytes, done⟩, calls, life⟩ := s
  subst halive
  have fit : ∀ pc ∈ calls, pc.inDrop = false := hw.fit
  -- no call of `drop` is in flight on a live tracker
  have hfree : ∀ mem, Pc.freeUsed mem ∉ calls := fun mem hmem => by simpa using fit _ hmem
  cases method with
  | onAllocation b =>
    have hany : ((⟨⟨wbm, bytes, done⟩, calls, .alive⟩ : Slot).start (.onAllocation b)).calls.any
        Pc.isLoadAllocated = calls.any Pc.isLoadAllocated := by
      cases wbm <;> simp [start]
    refine ⟨?_, ?_, fun h => ?_, ?_, by simp [start]⟩
    · cases wbm <;> simp_all [start, CallsFit, or_imp]
    · cases wbm <;> simp_all [start]
    · simpa [start] using hw.loadAllocated (hany ▸ h)
    · cases wbm <;> simpa [start] using hw.loading
  | doneAllocating =>
    cases hcas : (wbm && !done)
    · -- the swap is lost, or there is no manager: nothing changes
      have hsame : (⟨⟨wbm, bytes, done⟩, calls, .alive⟩ : Slot).start .doneAllocating =
          ⟨⟨wbm, bytes, done⟩, calls, .alive⟩ := by
        simp [start, doneAllocatingCas, hcas]
      rw [hsame]
      exact hw
    · -- the swap is won: no call loaded before it
      obtain ⟨rfl, rfl⟩ : wbm = true ∧ done = false := by simpa using hcas
      have hnone : ∀ pc ∈ calls, pc.isLoadAllocated = false := by
        intro pc hpc
        by_contra hpc'
        simpa using (hw.loadAllocated (List.any_eq_true.mpr ⟨pc, hpc, by simpa using hpc'⟩)).2
      refine ⟨?_, ?_, fun _ => by simp [start, doneAllocatingCas], ?_,
        by simp [start, doneAllocatingCas]⟩
      · simp_all [start, doneAllocatingCas, CallsFit, or_imp]
      · simp_all [start, doneAllocatingCas]
      · simp [start, doneAllocatingCas, List.countP_eq_zero.mpr (by simpa using hnone)]
  | drop =>
    obtain rfl : calls = [] := hdrop rfl
    cases wbm <;> cases done <;>
      exact ⟨by simp [start, doneAllocatingCas, CallsFit], by simp [start, doneAllocatingCas],
        by simp [start, doneAllocatingCas], by simp [start, doneAllocatingCas],
        by simp [start, doneAllocatingCas]⟩

end Slot

/-! ## What each event moves

A tracker holds bytes in the counters (`Slot.usedBytes`, `Slot.activeBytes`), and its calls in
flight have still to add some (`Slot.pendingUsed`, `Slot.pendingActive`).  An access moves bytes
from its call into a counter, or takes the tracker's out of one; a call's start moves nothing,
but for an allocation on a tracker whose `done_allocating` has loaded `bytes_allocated`: its
`reserve_mem` adds the bytes to `memory_active`, and no call takes them out (`Slot.late`). -/

namespace Pc

variable (t : AllocTracker) (m : WriteBufferManagerImpl) (pc : Pc)

@[simp] lemma next_globalWriteBufferSize :
    (pc.next t m).1.globalWriteBufferSize = m.globalWriteBufferSize := by
  cases pc <;> rfl

@[simp] lemma next_mutableLimit : (pc.next t m).1.mutableLimit = m.mutableLimit := by
  cases pc <;> rfl

end Pc

namespace Slot

variable {s : Slot} {i : ℕ} {pc : Pc}

/-- The manager after an access is the one the call's access leaves. -/
lemma tick_fst (m : WriteBufferManagerImpl) (i : ℕ) :
    (s.tick m i).1 = ((s.calls[i]?).map fun pc => (pc.next s.tracker m).1).getD m := by
  cases h : s.calls[i]? with
  | none => simp [tick_of_getElem?_none h]
  | some pc =>
    cases hnext : pc.next s.tracker m with
    | mk m' next => cases next <;> simp [tick, h, hnext]

@[simp] lemma tick_globalWriteBufferSize (m : WriteBufferManagerImpl) (i : ℕ) :
    (s.tick m i).1.globalWriteBufferSize = m.globalWriteBufferSize := by
  rw [tick_fst]
  cases s.calls[i]? <;> simp

@[simp] lemma tick_mutableLimit (m : WriteBufferManagerImpl) (i : ℕ) :
    (s.tick m i).1.mutableLimit = m.mutableLimit := by
  rw [tick_fst]
  cases s.calls[i]? <;> simp

/-! Replacing or taking out the `i`-th call moves the slot's measures by that call's part. -/

section Places

variable (h : s.calls[i]? = some pc)
include h

lemma pendingUsed_set (pc' : Pc) :
    { s with calls := s.calls.set i pc' }.pendingUsed = s.pendingUsed - pc.pendingUsed + pc'.pendingUsed :=
  Ledger.sum_map_set _ h pc'

lemma pendingActive_set (pc' : Pc) :
    { s with calls := s.calls.set i pc' }.pendingActive =
      s.pendingActive - pc.pendingActive + pc'.pendingActive :=
  Ledger.sum_map_set _ h pc'

lemma activeBytes_set (pc' : Pc) (hload : pc'.isLoadAllocated = pc.isLoadAllocated) :
    { s with calls := s.calls.set i pc' }.activeBytes = s.activeBytes - pc.scheduled + pc'.scheduled := by
  simp only [activeBytes, Ledger.any_set h _ hload, Ledger.sum_map_set _ h pc']
  abel

lemma pendingUsed_eraseIdx (life : Life) :
    { s with calls := s.calls.eraseIdx i, life := life }.pendingUsed = s.pendingUsed - pc.pendingUsed :=
  Ledger.sum_map_eraseIdx _ h

lemma pendingActive_eraseIdx (life : Life) :
    { s with calls := s.calls.eraseIdx i, life := life }.pendingActive =
      s.pendingActive - pc.pendingActive :=
  Ledger.sum_map_eraseIdx _ h

lemma activeBytes_eraseIdx (life : Life) (hload : pc.isLoadAllocated = false) :
    { s with calls := s.calls.eraseIdx i, life := life }.activeBytes = s.activeBytes - pc.scheduled := by
  simp only [activeBytes, Ledger.any_eraseIdx h _ hload, Ledger.sum_map_eraseIdx _ h]
  abel

end Places


/-- A call's start on a live tracker moves nothing in `memory_used`: an allocation counts the
bytes that its `reserve_mem` has still to add. -/
lemma start_used (halive : s.life = .alive) (method : Method) :
    (s.start method).pendingUsed - (s.start method).usedBytes = s.pendingUsed - s.usedBytes := by
  obtain ⟨⟨wbm, bytes, done⟩, calls, life⟩ := s
  subst halive
  cases method with
  | onAllocation b => cases wbm <;> simp [start, pendingUsed, usedBytes]
  | doneAllocating =>
    cases wbm <;> cases done <;> simp [start, doneAllocatingCas, pendingUsed, usedBytes]
  | drop =>
    cases wbm <;> cases done <;> simp [start, doneAllocatingCas, pendingUsed, usedBytes]

/-- A call's start moves nothing in `memory_active` but a late allocation's bytes, which its
`reserve_mem` adds while the tracker holds none of them there. -/
lemma start_active (method : Method) :
    (s.start method).pendingActive - (s.start method).activeBytes =
      s.pendingActive - s.activeBytes + s.late method := by
  obtain ⟨⟨wbm, bytes, done⟩, calls, life⟩ := s
  cases method with
  | onAllocation b =>
    cases wbm
    · simp [start, pendingActive, activeBytes, late]
    · -- the bytes counted are in `memory_active` while a `done_allocating` has still to load them
      cases done <;> cases hany : calls.any Pc.isLoadAllocated <;>
        simp [start, pendingActive, activeBytes, late, hany] <;> abel
  | doneAllocating =>
    cases wbm <;> cases done <;> simp [start, doneAllocatingCas, pendingActive, activeBytes, late]
  | drop =>
    cases wbm <;> cases done <;> simp [start, doneAllocatingCas, pendingActive, activeBytes, late]


/-- Every access keeps, in each counter, what the manager holds and the calls in flight have
still to add, less the bytes the tracker holds, as it was: an access moves bytes from its call
into a counter, or takes the tracker's out of one. -/
lemma Wf.tick_balance (hw : s.Wf) (m : WriteBufferManagerImpl) (i : ℕ) :
    (s.tick m i).1.memoryUsed + (s.tick m i).2.pendingUsed - (s.tick m i).2.usedBytes =
        m.memoryUsed + s.pendingUsed - s.usedBytes ∧
      (s.tick m i).1.memoryActive + (s.tick m i).2.pendingActive - (s.tick m i).2.activeBytes =
        m.memoryActive + s.pendingActive - s.activeBytes := by
  cases h : s.calls[i]? with
  | none =>
    rw [tick_of_getElem?_none h]
    exact ⟨rfl, rfl⟩
  | some pc =>
    have hmem : pc ∈ s.calls := List.mem_of_getElem? h
    cases pc with
    | reserveUsed b =>
      rw [tick_of_next_some h rfl]
      refine ⟨?_, ?_⟩
      · rw [pendingUsed_set h]; simp [usedBytes]
      · rw [pendingActive_set h, activeBytes_set h (.reserveActive b) rfl]; simp
    | reserveActive b =>
      rw [tick_of_next_none h rfl]
      refine ⟨?_, ?_⟩
      · rw [pendingUsed_eraseIdx h]; simp [usedBytes]
      · rw [pendingActive_eraseIdx h, activeBytes_eraseIdx h _ rfl]; simp
    | loadAllocated inDrop =>
      -- the load moves the tracker's bytes from what it counted to what its call schedules
      have hany : s.calls.any Pc.isLoadAllocated = true := List.any_eq_true.mpr ⟨_, hmem, rfl⟩
      obtain ⟨hwbm, hdone⟩ := hw.loadAllocated hany
      have hnone := Ledger.any_set_eq_false h Pc.isLoadAllocated rfl
        (b := .scheduleFree s.tracker.bytesAllocated inDrop) rfl hw.loading
      rw [tick_of_next_some h rfl]
      refine ⟨?_, ?_⟩
      · rw [pendingUsed_set h]; simp [usedBytes]
      · rw [pendingActive_set h]
        simp only [activeBytes, hnone, hany, hwbm, hdone, Ledger.sum_map_set _ h]
        simp
        abel
    | scheduleFree mem inDrop =>
      cases inDrop
      · rw [tick_of_next_none h rfl]
        refine ⟨?_, ?_⟩
        · rw [pendingUsed_eraseIdx h]; simp [usedBytes]
        · rw [pendingActive_eraseIdx h, activeBytes_eraseIdx h _ rfl]; simp; abel
      · rw [tick_of_next_some h rfl]
        refine ⟨?_, ?_⟩
        · rw [pendingUsed_set h]; simp [usedBytes]
        · rw [pendingActive_set h, activeBytes_set h .loadFreed rfl]; simp; abel
    | loadFreed =>
      cases hwbm : s.tracker.writeBufferManager
      · -- without a manager `drop` returns here, and the tracker held nothing
        have hnext : Pc.loadFreed.next s.tracker m = (m, none) := by simp [Pc.next, hwbm]
        rw [tick_of_next_none h hnext]
        refine ⟨?_, ?_⟩
        · rw [pendingUsed_eraseIdx h]; simp [usedBytes, hwbm]
        · rw [pendingActive_eraseIdx h, activeBytes_eraseIdx h _ rfl]; simp
      · have hnext : Pc.loadFreed.next s.tracker m =
            (m, some (.freeUsed s.tracker.bytesAllocated)) := by simp [Pc.next, hwbm]
        rw [tick_of_next_some h hnext]
        refine ⟨?_, ?_⟩
        · rw [pendingUsed_set h]; simp [usedBytes]
        · rw [pendingActive_set h, activeBytes_set h (.freeUsed _) rfl]; simp
    | freeUsed mem =>
      -- `drop` frees the tracker's bytes, and the tracker is gone
      obtain ⟨hwbm, rfl⟩ := hw.freeUsed mem hmem
      have hlife := hw.fit.life_of_inDrop hmem rfl
      rw [tick_of_next_none h rfl]
      refine ⟨?_, ?_⟩
      · rw [pendingUsed_eraseIdx h]; simp [usedBytes, hwbm, hlife]; abel
      · rw [pendingActive_eraseIdx h, activeBytes_eraseIdx h _ rfl]; simp


/-- With no call in flight, a well formed tracker holds in `memory_active` the bytes of its
mutable memtable: a tracker that `drop` has started on is done allocating. -/
lemma Wf.activeBytes_eq (hw : s.Wf) (hcalls : s.calls = []) : s.activeBytes = s.mutableBytes := by
  obtain ⟨⟨wbm, bytes, done⟩, calls, life⟩ := s
  subst hcalls
  cases life with
  | alive => simp [activeBytes, mutableBytes]
  | dropping =>
    obtain ⟨pc, hpc, -⟩ := hw.fit
    simp at hpc
  | dropped =>
    cases wbm
    · simp [activeBytes, mutableBytes]
    · have hdone : done = true := hw.done (by simp) rfl
      simp [activeBytes, mutableBytes, hdone]

end Slot

namespace WriteBufferManagerImpl

/-- `should_flush_engine` as one condition. -/
lemma shouldFlushEngine_eq (m : WriteBufferManagerImpl) :
    m.shouldFlushEngine = (decide (m.mutableUsage > m.mutableLimit) ||
      decide (m.memoryUsage ≥ m.globalWriteBufferSize) &&
        decide (m.mutableUsage ≥ m.globalWriteBufferSize / 2)) := by
  unfold shouldFlushEngine
  split_ifs <;> simp_all

end WriteBufferManagerImpl

namespace Engine

variable {e : Engine} {ev : Event}

/-- Every tracker made so far is well formed. -/
def Wf (e : Engine) : Prop := ∀ s ∈ e.slots, s.Wf

/-- What ownership lets a call find: a live tracker, with no call in flight for `drop`. -/
lemma owned_call {t : ℕ} {method : Method} (h : e.owned (.call t method) = true) :
    ∃ s, e.slots[t]? = some s ∧ s.life = .alive ∧ (method = .drop → s.calls = []) := by
  cases hs : e.slots[t]? with
  | none => cases method <;> simp [owned, hs] at h
  | some s =>
    refine ⟨s, rfl, ?_⟩
    cases method <;> simp_all [owned]

lemma owned_of_disciplined (h : e.disciplined ev = true) : e.owned ev = true := by
  cases ev with
  | new _ | tick _ _ => exact h
  | call t method =>
    cases method with
    | onAllocation bytes =>
      simp only [disciplined, Bool.and_eq_true] at h
      exact h.1
    | doneAllocating | drop => exact h

/-- Where no memtable is written once it is frozen, no allocation is late. -/
lemma late_of_disciplined (h : e.disciplined ev = true) : e.late ev = 0 := by
  cases ev with
  | new _ | tick _ _ => rfl
  | call t method =>
    cases hs : e.slots[t]? with
    | none => simp [late, hs]
    | some s =>
      cases method with
      | onAllocation bytes =>
        simp [disciplined, hs] at h
        simp [late, hs, Slot.late, h.2]
      | doneAllocating | drop => simp [late, hs, Slot.late]

lemma wf_start (g : BitVec 64) : (start g).Wf := by
  simp [Wf, start]

lemma wf_set {slots : List Slot} (hw : ∀ s ∈ slots, s.Wf) (t : ℕ) {s : Slot} (hs : s.Wf) :
    ∀ s' ∈ slots.set t s, s'.Wf :=
  fun s' h' => (List.mem_or_eq_of_mem_set h').elim (hw s') (· ▸ hs)

/-- Every event that ownership allows keeps every tracker well formed. -/
lemma Wf.step (hw : e.Wf) (hown : e.owned ev = true) : (e.step ev).Wf := by
  cases ev with
  | new writeBufferManager =>
    intro s hs
    simp only [Engine.step, List.mem_append, List.mem_singleton] at hs
    rcases hs with hs | rfl
    · exact hw s hs
    · exact Slot.wf_new writeBufferManager
  | call t method =>
    obtain ⟨s, hs, halive, hdrop⟩ := owned_call hown
    rw [step_call hs]
    exact wf_set hw t ((hw s (List.mem_of_getElem? hs)).start halive method hdrop)
  | tick t i =>
    cases hs : e.slots[t]? with
    | none => simpa [Engine.step, hs] using hw
    | some s =>
      rw [step_tick hs]
      exact wf_set hw t ((hw s (List.mem_of_getElem? hs)).tick e.manager i)

/-- Every event that ownership allows keeps, in `memory_used`, what the manager holds and the
calls in flight have still to add, less the bytes the trackers hold; in `memory_active` it
moves the same by the event's late bytes. -/
lemma Wf.step_balance (hw : e.Wf) (hown : e.owned ev = true) :
    (e.step ev).manager.memoryUsed + (e.step ev).pendingUsed - (e.step ev).usedBytes =
        e.manager.memoryUsed + e.pendingUsed - e.usedBytes ∧
      (e.step ev).manager.memoryActive + (e.step ev).pendingActive - (e.step ev).activeBytes =
        e.manager.memoryActive + e.pendingActive - e.activeBytes + e.late ev := by
  cases ev with
  | new writeBufferManager =>
    -- a new tracker holds nothing
    simp [Engine.step, late, pendingUsed, usedBytes, pendingActive, activeBytes, Slot.pendingUsed,
      Slot.usedBytes, Slot.pendingActive, Slot.activeBytes, AllocTracker.new]
  | call t method =>
    obtain ⟨s, hs, halive, -⟩ := owned_call hown
    have hused := Slot.start_used halive method
    have hactive := Slot.start_active (s := s) method
    rw [step_call hs]
    simp only [pendingUsed, usedBytes, pendingActive, activeBytes, late, hs,
      Ledger.sum_map_set _ hs, Option.map_some, Option.getD_some]
    constructor
    · linear_combination hused
    · linear_combination hactive
  | tick t i =>
    cases hs : e.slots[t]? with
    | none => simp [Engine.step, late, hs]
    | some s =>
      obtain ⟨hused, hactive⟩ := (hw s (List.mem_of_getElem? hs)).tick_balance e.manager i
      rw [step_tick hs]
      simp only [pendingUsed, usedBytes, pendingActive, activeBytes, late,
        Ledger.sum_map_set _ hs, add_zero]
      constructor
      · linear_combination hused
      · linear_combination hactive

@[simp] lemma step_globalWriteBufferSize (ev : Event) :
    (e.step ev).manager.globalWriteBufferSize = e.manager.globalWriteBufferSize := by
  cases ev with
  | new _ => rfl
  | call t method => cases hs : e.slots[t]? <;> simp [Engine.step, hs]
  | tick t i => cases hs : e.slots[t]? <;> simp [Engine.step, hs]

@[simp] lemma step_mutableLimit (ev : Event) :
    (e.step ev).manager.mutableLimit = e.manager.mutableLimit := by
  cases ev with
  | new _ => rfl
  | call t method => cases hs : e.slots[t]? <;> simp [Engine.step, hs]
  | tick t i => cases hs : e.slots[t]? <;> simp [Engine.step, hs]


end Engine

/-! ## Runs -/

namespace Engine

variable {e : Engine} {events : List Event}

/-- Every run that ownership allows keeps every tracker well formed. -/
lemma Wf.run (hw : e.Wf) (hrun : Ledger.AllowedRun Engine.step (fun e ev => e.owned ev = true) e events) :
    (e.run events).Wf :=
  hrun.invariant Wf (fun _ _ hw hown => hw.step hown) hw

/-- Along every run that ownership allows, from any well formed engine, `memory_used` with what
the calls in flight have still to add, less the trackers' bytes, stays as it was; the same for
`memory_active` moves by the late bytes. -/
lemma Wf.run_balance (hw : e.Wf)
    (hrun : Ledger.AllowedRun Engine.step (fun e ev => e.owned ev = true) e events) :
    (e.run events).manager.memoryUsed + (e.run events).pendingUsed - (e.run events).usedBytes =
        e.manager.memoryUsed + e.pendingUsed - e.usedBytes ∧
      (e.run events).manager.memoryActive + (e.run events).pendingActive -
          (e.run events).activeBytes =
        e.manager.memoryActive + e.pendingActive - e.activeBytes + e.lateBytes events := by
  constructor
  · have h := hrun.along_eq Wf (fun e => e.manager.memoryUsed + e.pendingUsed - e.usedBytes)
      (fun _ _ => (0 : BitVec 64)) (fun _ _ hw hown => hw.step hown)
      (fun _ _ hw hown => by rw [(hw.step_balance hown).1, add_zero]) hw
    rwa [hrun.along_eq_zero _ (fun _ _ _ => rfl), add_zero] at h
  · exact hrun.along_eq Wf (fun e => e.manager.memoryActive + e.pendingActive - e.activeBytes)
      late (fun _ _ hw hown => hw.step hown) (fun _ _ hw hown => (hw.step_balance hown).2) hw

/-- The write buffer's size and the mutable memtables' limit never change. -/
lemma run_sizes (g : BitVec 64) (events : List Event) :
    ((start g).run events).manager.globalWriteBufferSize = g ∧
      ((start g).run events).manager.mutableLimit = g / 2 :=
  Ledger.invariant_foldl
    (fun e => e.manager.globalWriteBufferSize = g ∧ e.manager.mutableLimit = g / 2) step
    (fun _ _ h => by simpa using h) events ⟨rfl, rfl⟩

/-- With no call in flight, the calls have nothing still to add, and the trackers hold in
`memory_active` the bytes of the mutable memtables. -/
lemma Wf.quiescent (hw : e.Wf) (hq : e.quiescent = true) :
    e.pendingUsed = 0 ∧ e.pendingActive = 0 ∧ e.activeBytes = e.mutableBytes := by
  have hcalls : ∀ s ∈ e.slots, s.calls = [] := by simpa [Engine.quiescent] using hq
  refine ⟨List.sum_eq_zero ?_, List.sum_eq_zero ?_, ?_⟩
  · simp +contextual [Slot.pendingUsed, hcalls]
  · simp +contextual [Slot.pendingActive, hcalls]
  · exact congrArg List.sum (List.map_congr_left fun s hs => (hw s hs).activeBytes_eq (hcalls s hs))

/-- A new engine holds nothing and has nothing in flight. -/
lemma start_balance (g : BitVec 64) :
    (start g).manager.memoryUsed + (start g).pendingUsed - (start g).usedBytes = 0 ∧
      (start g).manager.memoryActive + (start g).pendingActive - (start g).activeBytes = 0 := by
  simp [start, WriteBufferManagerImpl.new, pendingUsed, usedBytes, pendingActive, activeBytes]

/-- Over every interleaving that ownership allows, from a new engine: `memory_used` and what the
calls in flight have still to add are the bytes of the trackers not dropped, and
`memory_active` and theirs are the bytes not yet scheduled to be freed, and besides them the
late allocations' along the run. -/
theorem run_accounting (g : BitVec 64) (events : List Event)
    (hrun : Ledger.AllowedRun step (fun e ev => e.owned ev = true) (start g) events) {e : Engine}
    (he : (start g).run events = e) :
    e.manager.memoryUsed + e.pendingUsed = e.usedBytes ∧
      e.manager.memoryActive + e.pendingActive = e.activeBytes + (start g).lateBytes events := by
  subst he
  obtain ⟨hused, hactive⟩ := Wf.run_balance (wf_start g) hrun
  rw [(start_balance g).1] at hused
  rw [(start_balance g).2, zero_add] at hactive
  exact ⟨sub_eq_zero.mp hused, sub_eq_iff_eq_add'.mp hactive⟩

theorem run_accounting_late :
    Ledger.AllowedRun step (fun e ev => e.owned ev = true) (start 64)
        [.new true, .call 0 (.onAllocation 100), .tick 0 0, .tick 0 0, .call 0 .doneAllocating,
          .tick 0 0, .tick 0 0, .call 0 (.onAllocation 50), .tick 0 0, .tick 0 0, .call 0 .drop,
          .tick 0 0, .tick 0 0] ∧
      (start 64).run
          [.new true, .call 0 (.onAllocation 100), .tick 0 0, .tick 0 0, .call 0 .doneAllocating,
            .tick 0 0, .tick 0 0, .call 0 (.onAllocation 50), .tick 0 0, .tick 0 0, .call 0 .drop,
            .tick 0 0, .tick 0 0] =
        ⟨⟨64, 32, 0, 50⟩, [⟨⟨true, 150, true⟩, [], .dropped⟩]⟩ ∧
      (start 64).lateBytes
          [.new true, .call 0 (.onAllocation 100), .tick 0 0, .tick 0 0, .call 0 .doneAllocating,
            .tick 0 0, .tick 0 0, .call 0 (.onAllocation 50), .tick 0 0, .tick 0 0, .call 0 .drop,
            .tick 0 0, .tick 0 0] = 50 ∧
      (((⟨⟨64, 32, 0, 50⟩, [⟨⟨true, 150, true⟩, [], .dropped⟩]⟩ : Engine).manager.memoryUsed +
          (⟨⟨64, 32, 0, 50⟩, [⟨⟨true, 150, true⟩, [], .dropped⟩]⟩ : Engine).pendingUsed =
        (⟨⟨64, 32, 0, 50⟩, [⟨⟨true, 150, true⟩, [], .dropped⟩]⟩ : Engine).usedBytes) ∧
      (⟨⟨64, 32, 0, 50⟩, [⟨⟨true, 150, true⟩, [], .dropped⟩]⟩ : Engine).manager.memoryActive +
          (⟨⟨64, 32, 0, 50⟩, [⟨⟨true, 150, true⟩, [], .dropped⟩]⟩ : Engine).pendingActive =
        (⟨⟨64, 32, 0, 50⟩, [⟨⟨true, 150, true⟩, [], .dropped⟩]⟩ : Engine).activeBytes +
          (start 64).lateBytes
            [.new true, .call 0 (.onAllocation 100), .tick 0 0, .tick 0 0, .call 0 .doneAllocating,
              .tick 0 0, .tick 0 0, .call 0 (.onAllocation 50), .tick 0 0, .tick 0 0,
              .call 0 .drop, .tick 0 0, .tick 0 0]) :=
  ⟨by decide, by decide, by decide, run_accounting 64 _ (by decide) (by decide)⟩

/-- Where no memtable is written once it is frozen, over every interleaving from a new engine,
at every point with no call in flight `memory_used` is the bytes of the live trackers and
`memory_active` those of the mutable memtables, and the manager stalls and flushes on them. -/
theorem run_quiescent (g : BitVec 64) (events : List Event)
    (hrun : Ledger.AllowedRun step (fun e ev => e.disciplined ev = true) (start g) events)
    {e : Engine} (he : (start g).run events = e) (hq : e.quiescent = true) :
    e.manager.memoryUsage = e.usedBytes ∧ e.manager.mutableUsage = e.mutableBytes ∧
      e.manager.shouldStall = decide (e.usedBytes ≥ g) ∧
      e.manager.shouldFlushEngine = (decide (e.mutableBytes > g / 2) ||
        decide (e.usedBytes ≥ g) && decide (e.mutableBytes ≥ g / 2)) := by
  have howned := hrun.mono fun _ _ h => owned_of_disciplined h
  -- no allocation is late, so `memory_active` keeps nothing for good
  have hlate : (start g).lateBytes events = 0 :=
    hrun.along_eq_zero late fun _ _ h => late_of_disciplined h
  obtain ⟨hused, hactive⟩ := Wf.run_balance (wf_start g) howned
  obtain ⟨hsize, hlimit⟩ := run_sizes g events
  subst he
  obtain ⟨hpendingUsed, hpendingActive, hactiveBytes⟩ :=
    (Wf.run (wf_start g) howned).quiescent hq
  rw [(start_balance g).1, hpendingUsed, add_zero, sub_eq_zero] at hused
  rw [(start_balance g).2, hlate, add_zero, hpendingActive, hactiveBytes, add_zero,
    sub_eq_zero] at hactive
  refine ⟨hused, hactive, ?_, ?_⟩
  · simp only [WriteBufferManagerImpl.shouldStall, WriteBufferManagerImpl.memoryUsage, hused, hsize]
  · simp only [WriteBufferManagerImpl.shouldFlushEngine_eq, WriteBufferManagerImpl.mutableUsage,
      WriteBufferManagerImpl.memoryUsage, hused, hactive, hsize, hlimit]

theorem run_quiescent_twoMemtables :
    Ledger.AllowedRun step (fun e ev => e.disciplined ev = true) (start 64)
        [.new true, .new true, .call 0 (.onAllocation 30), .call 1 (.onAllocation 40), .tick 0 0,
          .tick 1 0, .tick 1 0, .tick 0 0, .call 0 .doneAllocating, .tick 0 0, .tick 0 0,
          .call 0 .drop, .tick 0 0, .tick 0 0] ∧
      (start 64).run
          [.new true, .new true, .call 0 (.onAllocation 30), .call 1 (.onAllocation 40), .tick 0 0,
            .tick 1 0, .tick 1 0, .tick 0 0, .call 0 .doneAllocating, .tick 0 0, .tick 0 0,
            .call 0 .drop, .tick 0 0, .tick 0 0] =
        ⟨⟨64, 32, 40, 40⟩, [⟨⟨true, 30, true⟩, [], .dropped⟩, ⟨⟨true, 40, false⟩, [], .alive⟩]⟩ ∧
      (⟨⟨64, 32, 40, 40⟩, [⟨⟨true, 30, true⟩, [], .dropped⟩, ⟨⟨true, 40, false⟩, [], .alive⟩]⟩ :
        Engine).quiescent = true ∧
      ((⟨⟨64, 32, 40, 40⟩, [⟨⟨true, 30, true⟩, [], .dropped⟩, ⟨⟨true, 40, false⟩, [], .alive⟩]⟩ :
          Engine).manager.memoryUsage =
        (⟨⟨64, 32, 40, 40⟩, [⟨⟨true, 30, true⟩, [], .dropped⟩, ⟨⟨true, 40, false⟩, [], .alive⟩]⟩ :
          Engine).usedBytes ∧
      (⟨⟨64, 32, 40, 40⟩, [⟨⟨true, 30, true⟩, [], .dropped⟩, ⟨⟨true, 40, false⟩, [], .alive⟩]⟩ :
          Engine).manager.mutableUsage =
        (⟨⟨64, 32, 40, 40⟩, [⟨⟨true, 30, true⟩, [], .dropped⟩, ⟨⟨true, 40, false⟩, [], .alive⟩]⟩ :
          Engine).mutableBytes ∧
      (⟨⟨64, 32, 40, 40⟩, [⟨⟨true, 30, true⟩, [], .dropped⟩, ⟨⟨true, 40, false⟩, [], .alive⟩]⟩ :
          Engine).manager.shouldStall =
        decide ((⟨⟨64, 32, 40, 40⟩, [⟨⟨true, 30, true⟩, [], .dropped⟩,
          ⟨⟨true, 40, false⟩, [], .alive⟩]⟩ : Engine).usedBytes ≥ 64) ∧
      (⟨⟨64, 32, 40, 40⟩, [⟨⟨true, 30, true⟩, [], .dropped⟩, ⟨⟨true, 40, false⟩, [], .alive⟩]⟩ :
          Engine).manager.shouldFlushEngine =
        (decide ((⟨⟨64, 32, 40, 40⟩, [⟨⟨true, 30, true⟩, [], .dropped⟩,
            ⟨⟨true, 40, false⟩, [], .alive⟩]⟩ : Engine).mutableBytes > 64 / 2) ||
          decide ((⟨⟨64, 32, 40, 40⟩, [⟨⟨true, 30, true⟩, [], .dropped⟩,
            ⟨⟨true, 40, false⟩, [], .alive⟩]⟩ : Engine).usedBytes ≥ 64) &&
          decide ((⟨⟨64, 32, 40, 40⟩, [⟨⟨true, 30, true⟩, [], .dropped⟩,
            ⟨⟨true, 40, false⟩, [], .alive⟩]⟩ : Engine).mutableBytes ≥ 64 / 2))) :=
  ⟨by decide, by decide, by decide,
    run_quiescent 64 [.new true, .new true, .call 0 (.onAllocation 30), .call 1 (.onAllocation 40),
      .tick 0 0, .tick 1 0, .tick 1 0, .tick 0 0, .call 0 .doneAllocating, .tick 0 0, .tick 0 0,
      .call 0 .drop, .tick 0 0, .tick 0 0] (by decide) (by decide) (by decide)⟩

end Engine

end WriteBuffer

end Greptime
