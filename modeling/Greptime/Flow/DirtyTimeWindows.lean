import Greptime.Foundations.SortedMap
import Greptime.Time.Timestamp

/-!
# Dirty time windows of a batching flow (`flow::batching_mode::state`)

A batching flow remembers which time windows received data since its last query.  The
windows are a `BTreeMap` from a start to an optional exclusive end; a window without an end
is taken to last one window size.  Before a query `merge_dirty_time_windows` drops the
windows that start before the expiry bound and joins each window into the previous one when it
starts at most `time_window_merge_threshold` window sizes after the previous end;
`gen_filter_exprs` then takes the first windows, splitting the last one, up to a total range
of `window_cnt` window sizes, and leaves the rest for later.

Both functions work on `&mut self` and fail part way: the model runs them in
`EStateM FlowError DirtyTimeWindows`, so that what a failure leaves behind is part of the
result.  The filter expressions themselves, the alignment through the flow's time-window
expression and the metrics are left out; `genFilterExprs` returns the time ranges the
expressions are built from.

A join sets the previous end to the joined window's end, also when that end is the earlier
one.  `mergeDirtyTimeWindows_forgets_dirty_time` merges a window `[0 s, 100 s)` with a lower
bound at `10 s` into `[0 s, 11 s)`: the time from `11 s` to `100 s` is no longer dirty.
-/

namespace Greptime

/-- The errors of the dirty-window functions: `TimeSnafu` (a timestamp overflowed),
`InternalSnafu` (a negative window size), `UnexpectedSnafu` (a window size under a second), and
a panic of an `unwrap` or of `chrono`'s arithmetic. -/
inductive FlowError
  | time
  | internal
  | unexpected
  | panic
  deriving DecidableEq, Repr

/-- `.context(..)?`, `.expect(..)` and `.unwrap()` on an `Option`: the value, or the error. -/
def context {σ α : Type} (o : Option α) (e : FlowError) : EStateM FlowError σ α :=
  match o with
  | some a => pure a
  | none => throw e

/-- `usize as i32` and `i64 as i32`: the low 32 bits, read as a signed number. -/
def asI32 (n : ℤ) : ℤ := n.bmod (2 ^ 32)

/-- A dirty window: a start and an optional exclusive end. -/
abbrev TimeWindow := Timestamp × Option Timestamp

/-- `DirtyTimeWindows`. -/
structure DirtyTimeWindows where
  windows : List TimeWindow
  maxFilterNumPerQuery : ℕ
  timeWindowMergeThreshold : ℕ

namespace DirtyTimeWindows

/-- `DirtyTimeWindows::default`. -/
def default : DirtyTimeWindows := ⟨[], 20, 3⟩

/-- `DirtyTimeWindows::add_lower_bounds`: a window without an end at each bound that does not
start one yet. -/
def addLowerBounds (w : DirtyTimeWindows) (lowerBounds : List Timestamp) : DirtyTimeWindows :=
  { w with
    windows := lowerBounds.foldl (fun ws b => SortedMap.orInsert Timestamp.cmp b none ws)
      w.windows }

/-- `DirtyTimeWindows::add_window`. -/
def addWindow (w : DirtyTimeWindows) (start : Timestamp) (end_ : Option Timestamp) :
    DirtyTimeWindows :=
  { w with windows := SortedMap.insert Timestamp.cmp start end_ w.windows }

/-- `DirtyTimeWindows::add_windows`. -/
def addWindows (w : DirtyTimeWindows) (timeRanges : List (Timestamp × Timestamp)) :
    DirtyTimeWindows :=
  { w with
    windows := timeRanges.foldl (fun ws r => SortedMap.insert Timestamp.cmp r.1 (some r.2) ws)
      w.windows }

/-- `DirtyTimeWindows::clean`. -/
def clean (w : DirtyTimeWindows) : DirtyTimeWindows := { w with windows := [] }

/-- The loop of `merge_dirty_time_windows` over the windows taken out of the map, with the
previous window `prevTw` and the windows `newWindows` built so far.  Both `unwrap_or`
arguments are evaluated, and may fail, before the choice. -/
def mergeLoop (threshold : ℕ) (windowSize : ℤ) (stdWindowSize : Duration)
    (expireLowerBound : Option Timestamp) :
    Option TimeWindow → List TimeWindow → List TimeWindow →
      EStateM FlowError DirtyTimeWindows (List TimeWindow)
  | prevTw, newWindows, [] =>
    match prevTw with
    | some (start, end_) => pure (SortedMap.insert Timestamp.cmp start end_ newWindows)
    | none => pure newWindows
  | prevTw, newWindows, (lowerBound, upperBound) :: rest => do
    -- an expired window is dropped
    if expireLowerBound.any (lowerBound.cmp · = .lt) then
      mergeLoop threshold windowSize stdWindowSize expireLowerBound prevTw newWindows rest
    else
      match prevTw with
      | none =>
        mergeLoop threshold windowSize stdWindowSize expireLowerBound
          (some (lowerBound, upperBound)) newWindows rest
      | some (prevStart, prevEnd) => do
        let prevUpper := prevEnd.getD (← context (prevStart.addDuration stdWindowSize) .time)
        let curUpper := upperBound.getD (← context (lowerBound.addDuration stdWindowSize) .time)
        let close ← match lowerBound.sub prevUpper with
          | some dist => do
            let bound ← context (TimeDelta.mulI32 windowSize (asI32 threshold)) .panic
            pure (decide (dist ≤ bound))
          | none => pure false
        if close then
          -- the join: the previous window now ends where the current one does
          mergeLoop threshold windowSize stdWindowSize expireLowerBound
            (some (prevStart, some curUpper)) newWindows rest
        else
          mergeLoop threshold windowSize stdWindowSize expireLowerBound
            (some (lowerBound, some curUpper))
            (SortedMap.insert Timestamp.cmp prevStart (some prevUpper) newWindows) rest

/-- `DirtyTimeWindows::merge_dirty_time_windows`.  The windows are taken out of the map
(`std::mem::take`) before the loop, so a failure in the loop leaves none. -/
def mergeDirtyTimeWindows (windowSize : ℤ) (expireLowerBound : Option Timestamp) :
    EStateM FlowError DirtyTimeWindows Unit := do
  let w ← get
  if w.windows.isEmpty then return
  let stdWindowSize ← context (TimeDelta.toStd windowSize) .internal
  set { w with windows := [] }
  let newWindows ← mergeLoop w.timeWindowMergeThreshold windowSize stdWindowSize
    expireLowerBound none [] w.windows
  set { w with windows := newWindows }

/-- The loop of `gen_filter_exprs` over the merged windows, with the index of the window, the
windows to query, the windows left and the time range taken so far.  It stops at the first
`break`, with the windows to query and the windows left. -/
def genLoop (windowSize maxTimeRange : ℤ) (windowCnt : ℕ) :
    ℕ → List TimeWindow → List TimeWindow → List TimeWindow → ℤ →
      EStateM FlowError DirtyTimeWindows (List TimeWindow × List TimeWindow)
  | _, [], toBeQuery, newWindows, _ => pure (toBeQuery, newWindows)
  | idx, (start, end_) :: rest, toBeQuery, newWindows, curTimeRange => do
    let firstEnd ← context (start.addDuration (← context (TimeDelta.toStd windowSize) .panic)) .time
    let end_ := end_.getD firstEnd
    if maxTimeRange ≤ curTimeRange ∨ windowCnt ≤ idx then return (toBeQuery, newWindows)
    match end_.sub start with
      | none =>
        genLoop windowSize maxTimeRange windowCnt (idx + 1) rest toBeQuery newWindows curTimeRange
      | some x => do
        let total ← context (TimeDelta.add curTimeRange x) .panic
        if total ≤ maxTimeRange then
          genLoop windowSize maxTimeRange windowCnt (idx + 1) rest
            (SortedMap.insert Timestamp.cmp start (some end_) toBeQuery)
            (SortedMap.erase Timestamp.cmp start newWindows) total
        else do
          -- the window does not fit: query its first whole window sizes and keep the rest
          let surplus ← context (TimeDelta.sub maxTimeRange curTimeRange) .panic
          if TimeDelta.numSeconds surplus ≤ TimeDelta.numSeconds windowSize then
            return (toBeQuery, newWindows)
          let times := (TimeDelta.numSeconds surplus).tdiv (TimeDelta.numSeconds windowSize)
          let splitOffset ← context (TimeDelta.mulI32 windowSize (asI32 times)) .panic
          let splitAt ← context
            (start.addDuration (← context (TimeDelta.toStd splitOffset) .panic)) .time
          -- `cur_time_range += split_offset` is not read again but may still panic
          let _ ← context (TimeDelta.add curTimeRange splitOffset) .panic
          return (SortedMap.insert Timestamp.cmp start (some splitAt) toBeQuery,
            SortedMap.insert Timestamp.cmp splitAt (some end_)
              (SortedMap.erase Timestamp.cmp start newWindows))

/-- The time ranges of the windows to query: a window without an end lasts one window size,
and that end is computed, and may fail, for every window. -/
def timeRanges (stdWindowSize : Duration) :
    List TimeWindow → EStateM FlowError DirtyTimeWindows (List (Timestamp × Timestamp))
  | [] => pure []
  | (start, end_) :: rest => do
    let end_ := end_.getD (← context (start.addDuration stdWindowSize) .time)
    return (start, end_) :: (← timeRanges stdWindowSize rest)

/-- `DirtyTimeWindows::gen_filter_exprs` without a task context: the time ranges of the
filter, `none` when there is no window to query. -/
def genFilterExprs (expireLowerBound : Option Timestamp) (windowSize : ℤ) (windowCnt : ℕ) :
    EStateM FlowError DirtyTimeWindows (Option (List (Timestamp × Timestamp))) := do
  if TimeDelta.numSeconds windowSize ≤ 0 then throw .unexpected
  mergeDirtyTimeWindows windowSize expireLowerBound
  let w ← get
  let maxTimeRange ← context (TimeDelta.mulI32 windowSize (asI32 windowCnt)) .panic
  let (toBeQuery, newWindows) ← genLoop windowSize maxTimeRange windowCnt 0 w.windows [] w.windows 0
  set { w with windows := newWindows }
  let stdWindowSize ← context (TimeDelta.toStd windowSize) .internal
  let ranges ← timeRanges stdWindowSize toBeQuery
  return if toBeQuery.isEmpty then none else some ranges

/-! ## What the windows cover -/

/-- The window contains the timestamp: it starts at or before it, and ends, at its end or one
window size after its start, after it. -/
def TimeWindow.contains (windowSize : Duration) (w : TimeWindow) (t : Timestamp) : Bool :=
  w.1.cmp t != .gt &&
    match w.2.orElse fun _ => w.1.addDuration windowSize with
    | some end_ => t.cmp end_ == .lt
    | none => false

/-- A window that has not expired contains the timestamp: the time still to be queried. -/
def covers (w : DirtyTimeWindows) (windowSize : Duration) (expireLowerBound : Option Timestamp)
    (t : Timestamp) : Bool :=
  w.windows.any fun tw =>
    !(expireLowerBound.any (tw.1.cmp · = .lt)) && TimeWindow.contains windowSize tw t

/-- A timestamp in seconds. -/
def second (n : ℤ) : Timestamp := Timestamp.newSecond (I64.wrap n)

/-- A window of a hundred seconds and a lower bound inside it.  The merge joins the bound into
the window and ends the window one second after the bound. -/
def forgetting : DirtyTimeWindows :=
  (default.addWindow (second 0) (some (second 100))).addLowerBounds [second 10]

theorem mergeDirtyTimeWindows_forgets_dirty_time :
    (mergeDirtyTimeWindows 1000000000 (some (second 0))).run forgetting =
        .ok () { forgetting with windows := [(second 0, some (second 11))] } ∧
      forgetting.covers (.fromSecs 1) (some (second 0)) (second 50) = true ∧
      { forgetting with windows := [(second 0, some (second 11))] }.covers
        (.fromSecs 1) (some (second 0)) (second 50) = false := by
  refine ⟨rfl, rfl, rfl⟩

end DirtyTimeWindows

end Greptime
