import Mathlib.Logic.Relation
import Greptime.LogStore.KafkaRecord

/-!
# Reading a region's WAL entries (`mito2::wal::entry_reader`, `mito2::wal::entry_distributor`)

Opening a region replays its WAL from a start id.  A raw reader gives the stream of the log's
entries from that id on, as results; `LogStoreEntryReader::read` turns it into the stream of
the region's entries.  It holds one entry back (`buffered_entry`): each entry is held until the
next one arrives, and only then given out, if it is complete (a multiple-part entry whose
headers hold `First` and `Last`); the last one is given out at the end.  An error of the raw
stream is given out after the held entry, and ends the stream.

Regions that share a Kafka topic are opened together (`open_topic_regions`): one
`WalEntryDistributor` reads the topic once and sends each entry down the channel of its
region, and each region reads its channel through a `WalEntryReceiver`, with the same one-entry
hold.  Each receiver first sends its start id to the distributor, which waits for all of them
(`join_all`), reads from the least, and sends an entry on only to a region that asked, and only
from that region's start id on.  The distributor and the receivers' streams run concurrently:
a `send` waits while the channel (of `buffer_size` entries) is full, and a stream ends once its
channel is empty and the distributor has returned and dropped its senders.

That run is modelled as a transition system (`Step`): each transition is one step the
distributor or one receiver's stream can take, guarded as the code guards it, and a run is any
interleaving of them.

What is proved:

* `LogStoreEntryReader::read` gives the complete entries the raw stream gives before its first
  error, in order, then that error (`logStoreEntryReader_read`).  The hold drops every incomplete
  entry, not only a corrupted tail;
* in every state of every run of the distributor, what a region's stream has given out is a
  prefix of the complete entries of that region, from its start id on, that the raw stream gives
  before its first error; once the stream has ended it is all of them (`distribute_delivers`);
* with channels of nonzero size, every run can be carried on until the distributor has returned
  and the streams of any given regions have ended (`distribute_completes`).

An entry given out stands for its decoding (`decode_raw_entry`), which is left out, with the
entries' providers.  The region ids given to `build_wal_entry_distributor_and_receivers` are
distinct, as `open_topic_regions` gives them: each region has one channel.  The `Err` of a
second `WalEntryReceiver::read`, and of a read after the distributor is dropped, are left out;
a receiver that never reads sends no start id.
-/

namespace Greptime

namespace Kafka

/-- `Entry::is_complete`: a multiple-part entry is complete when its headers hold `First` and
`Last`. -/
def Entry.isComplete : Entry → Bool
  | .naive .. => true
  | .multiplePart _ headers _ => headers.contains .first && headers.contains .last

end Kafka

namespace Wal

open Greptime.Except (okPrefix firstError okPrefix_map_ok_append)

/-- `Entry`: a Kafka entry with the id the log store gave it (`Entry::entry_id`). -/
structure Entry where
  entryId : ℕ
  entry : Kafka.Entry
  deriving DecidableEq, Repr

/-- `Entry::region_id`. -/
def Entry.regionId (e : Entry) : ℕ := e.entry.regionId

/-- `Entry::is_complete`. -/
def Entry.isComplete (e : Entry) : Bool := e.entry.isComplete

/-- What a stream gives out of the entry it held, when it lets it go: the entry if it is
complete, and nothing otherwise (the source logs "Ignoring incomplete entry"). -/
def release (buffered : Option Entry) : List Entry := (buffered.filter Entry.isComplete).toList

lemma release_eq_filter (buffered : Option Entry) :
    release buffered = buffered.toList.filter Entry.isComplete := by
  cases buffered with
  | none => rfl
  | some e => by_cases h : e.isComplete <;> simp [release, Option.filter, h]

@[simp] lemma release_none : release none = [] := rfl

/-! ## `LogStoreEntryReader` -/

section LogStoreEntryReader

variable {ε : Type}

/-- The stream of `LogStoreEntryReader::read` from the entry it holds (`buffered_entry`), over
what is left of the raw stream: each entry is held until the next one arrives and is then given
out if complete; an error of the raw stream (`next_entry?`) ends it after the held entry. -/
def LogStoreEntryReader.stream : Option Entry → List (Except ε Entry) → List (Except ε Entry)
  | buffered, [] => (release buffered).map .ok
  | buffered, .error e :: _ => (release buffered).map .ok ++ [.error e]
  | buffered, .ok next :: rest => (release buffered).map .ok ++ stream (some next) rest

/-- `LogStoreEntryReader::read`: the raw reader's stream from `start_id` (`reader.read`), read
through `stream` with nothing held. -/
def LogStoreEntryReader.read (rawRead : ℕ → Except ε (List (Except ε Entry)))
    (startId : ℕ) :
    Except ε (List (Except ε Entry)) :=
  (rawRead startId).map (LogStoreEntryReader.stream none)

/-- The one-entry hold gives out the complete entries among the held one and those before the
raw stream's first error, then that error. -/
lemma LogStoreEntryReader.stream_eq (buffered : Option Entry) (raw : List (Except ε Entry)) :
    stream buffered raw =
      ((buffered.toList ++ okPrefix raw).filter Entry.isComplete).map .ok ++
        (firstError raw).toList.map .error := by
  fun_induction stream buffered raw with
  | case1 buffered => simp [release_eq_filter]
  | case2 buffered e rest => simp [release_eq_filter]
  | case3 buffered next rest ih =>
    rw [ih]
    simp [release_eq_filter]

theorem logStoreEntryReader_read (rawRead : ℕ → Except ε (List (Except ε Entry)))
    (startId : ℕ) :
    LogStoreEntryReader.read rawRead startId =
      (rawRead startId).map fun raw =>
        ((okPrefix raw).filter Entry.isComplete).map .ok ++ (firstError raw).toList.map .error := by
  unfold LogStoreEntryReader.read
  congr 1
  funext raw
  rw [LogStoreEntryReader.stream_eq]
  rfl

end LogStoreEntryReader

/-! ## The receivers -/

/-- A region's channel (`mpsc::channel(buffer_size)`) and the stream `WalEntryReceiver::read`
gives from it: the entries sent and not yet received, the entry the stream holds
(`buffered_entry`), the entries it has given out, and whether it has ended. -/
structure Receiver where
  queue : List Entry
  buffered : Option Entry
  out : List Entry
  ended : Bool
  deriving DecidableEq, Repr

namespace Receiver

/-- A new channel, and a stream that has not started. -/
def empty : Receiver := ⟨[], none, [], false⟩

/-- `sender.send(entry)`: the entry joins the channel. -/
def send (rc : Receiver) (entry : Entry) : Receiver := { rc with queue := rc.queue ++ [entry] }

/-- A turn of the stream's loop on `entry_receiver.recv()` giving an entry: the held entry is
given out if complete, and the received one held. -/
def recv (rc : Receiver) : Receiver :=
  match rc.queue with
  | [] => rc
  | next :: rest =>
    { rc with queue := rest, buffered := some next, out := rc.out ++ release rc.buffered }

/-- The end of the stream, once `recv` gives `None`: the held entry is given out if complete. -/
def close (rc : Receiver) : Receiver :=
  { rc with buffered := none, out := rc.out ++ release rc.buffered, ended := true }

@[simp] lemma send_ended (rc : Receiver) (entry : Entry) : (rc.send entry).ended = rc.ended := rfl

@[simp] lemma recv_ended (rc : Receiver) : rc.recv.ended = rc.ended := by
  unfold recv
  split <;> rfl

@[simp] lemma close_ended (rc : Receiver) : rc.close.ended = true := rfl

@[simp] lemma close_queue (rc : Receiver) : rc.close.queue = rc.queue := rfl

lemma recv_queue {rc : Receiver} {next : Entry} {rest : List Entry} (h : rc.queue = next :: rest) :
    rc.recv.queue = rest := by
  simp [recv, h]

/-- What a receiver has of the entries `sent` to it: their complete ones are what its stream
has given out, then the held entry if complete, then the complete ones still in the channel;
an ended stream holds nothing. -/
structure Holds (rc : Receiver) (sent : List Entry) : Prop where
  complete : rc.out ++ release rc.buffered ++ rc.queue.filter Entry.isComplete =
    sent.filter Entry.isComplete
  ended : rc.ended → rc.buffered = none ∧ rc.queue = []

lemma holds_empty : empty.Holds [] := ⟨rfl, by simp [empty]⟩

lemma Holds.send {rc : Receiver} {sent : List Entry} (h : rc.Holds sent) (hopen : rc.ended = false)
    (entry : Entry) : (rc.send entry).Holds (sent ++ [entry]) where
  complete := by
    simp only [Receiver.send, List.filter_append, ← List.append_assoc, h.complete]
  ended := by simp [hopen]

lemma Holds.recv {rc : Receiver} {sent : List Entry} (h : rc.Holds sent) : rc.recv.Holds sent := by
  cases hq : rc.queue with
  | nil => simpa [Receiver.recv, hq] using h
  | cons next rest =>
    -- the received entry moves from the channel to the hold, the held one to the output
    refine ⟨?_, fun hend => ?_⟩
    · have hc := h.complete
      rw [hq] at hc
      simp only [Receiver.recv, hq, ← hc, release_eq_filter, Option.toList_some, List.filter_cons,
        List.append_assoc]
      split <;> simp
    · rw [recv_ended] at hend
      simp [(h.ended hend).2] at hq

lemma Holds.close {rc : Receiver} {sent : List Entry} (h : rc.Holds sent) (hq : rc.queue = []) :
    rc.close.Holds sent where
  complete := by simpa [Receiver.close, hq, release_eq_filter] using h.complete
  ended := fun _ => ⟨rfl, hq⟩

/-- A stream gives out, in order, the first of the complete entries sent to it, and all of them
once it has ended. -/
lemma Holds.out_prefixOf {rc : Receiver} {sent : List Entry} (h : rc.Holds sent) :
    rc.out <+: sent.filter Entry.isComplete := by
  rw [← h.complete, List.append_assoc]
  exact List.prefix_append _ _

lemma Holds.out_eq {rc : Receiver} {sent : List Entry} (h : rc.Holds sent) (hend : rc.ended) :
    rc.out = sent.filter Entry.isComplete := by
  obtain ⟨hb, hq⟩ := h.ended hend
  simpa [hb, hq] using h.complete

end Receiver

/-! ## The distributor -/

/-- `DEFAULT_ENTRY_RECEIVER_BUFFER_SIZE`. -/
def defaultEntryReceiverBufferSize : ℕ := 2048

/-- The subscribers `distribute` waits for (`join_all` over `arg_receivers`): each region whose
receiver sent its start id, with that id. -/
def collectArgs (regionIds : List ℕ) (startIds : ℕ → Option ℕ) : List (ℕ × ℕ) :=
  regionIds.filterMap fun regionId => (startIds regionId).map (regionId, ·)

/-- Whether `distribute` sends an entry on: its region has a receiver, and the entry is not
before that receiver's start id. -/
def sends (args : List (ℕ × ℕ)) (entry : Entry) : Bool :=
  match args.lookup entry.regionId with
  | some startId => startId ≤ entry.entryId
  | none => false

/-- Whether `distribute` sends an entry to region `r`. -/
def sentTo (args : List (ℕ × ℕ)) (r : ℕ) (entry : Entry) : Bool :=
  entry.regionId == r && sends args entry

lemma sentTo_of_sends {args : List (ℕ × ℕ)} {entry : Entry} (h : sends args entry) :
    sentTo args entry.regionId entry := by
  simp [sentTo, h]

lemma sentTo_of_ne {args : List (ℕ × ℕ)} {entry : Entry} {r : ℕ} (h : r ≠ entry.regionId) :
    sentTo args r entry = false := by
  simp [sentTo, Ne.symm h]

/-- A run of `distribute` with its receivers' streams: what is left of the raw stream it reads,
its result once it has returned, and each region's channel and stream. -/
structure Distribution (ε : Type) where
  input : List (Except ε Entry)
  result : Option (Except ε Unit)
  receivers : ℕ → Receiver

namespace Distribution

variable {ε : Type}

/-- `distribute` once every receiver has sent its start id or been dropped: with no subscriber it
returns at once; otherwise it reads from the least start id, and returns the raw reader's error
if that read fails. -/
def start (regionIds : List ℕ) (startIds : ℕ → Option ℕ)
    (rawRead : ℕ → Except ε (List (Except ε Entry))) : Distribution ε :=
  match ((collectArgs regionIds startIds).map Prod.snd).min? with
  | none => ⟨[], some (.ok ()), fun _ => .empty⟩
  | some minStartId =>
    match rawRead minStartId with
    | .error e => ⟨[], some (.error e), fun _ => .empty⟩
    | .ok stream => ⟨stream, none, fun _ => .empty⟩

/-- The run with region `r`'s channel and stream replaced. -/
def setReceiver (d : Distribution ε) (r : ℕ) (rc : Receiver) : Distribution ε :=
  { d with receivers := Function.update d.receivers r rc }

@[simp] lemma setReceiver_input (d : Distribution ε) (r : ℕ) (rc : Receiver) :
    (d.setReceiver r rc).input = d.input := rfl

@[simp] lemma setReceiver_result (d : Distribution ε) (r : ℕ) (rc : Receiver) :
    (d.setReceiver r rc).result = d.result := rfl

@[simp] lemma setReceiver_self (d : Distribution ε) (r : ℕ) (rc : Receiver) :
    (d.setReceiver r rc).receivers r = rc := by
  simp [setReceiver]

lemma setReceiver_of_ne (d : Distribution ε) {r r' : ℕ} (rc : Receiver) (h : r' ≠ r) :
    (d.setReceiver r rc).receivers r' = d.receivers r' := by
  simp [setReceiver, h]

@[simp] lemma setReceiver_setReceiver (d : Distribution ε) (r : ℕ) (rc rc' : Receiver) :
    (d.setReceiver r rc).setReceiver r rc' = d.setReceiver r rc' := by
  simp [setReceiver]

@[simp] lemma setReceiver_receivers (d : Distribution ε) (r : ℕ) :
    d.setReceiver r (d.receivers r) = d := by
  simp [setReceiver]

/-- The steps a run takes: one of `distribute`'s loop, or one of a receiver's stream. -/
inductive Step (args : List (ℕ × ℕ)) (bufferSize : ℕ) :
    Distribution ε → Distribution ε → Prop
  /-- `distribute` reads an entry that a receiver waits for and sends it, once its channel has
  room. -/
  | send {d : Distribution ε} {entry : Entry} {rest : List (Except ε Entry)}
      (hrun : d.result = none) (hinput : d.input = .ok entry :: rest) (hsends : sends args entry)
      (hroom : (d.receivers entry.regionId).queue.length < bufferSize) :
      Step args bufferSize d
        ({ d with input := rest }.setReceiver entry.regionId
          ((d.receivers entry.regionId).send entry))
  /-- `distribute` reads an entry that no receiver waits for, and drops it. -/
  | skip {d : Distribution ε} {entry : Entry} {rest : List (Except ε Entry)}
      (hrun : d.result = none) (hinput : d.input = .ok entry :: rest)
      (hsends : sends args entry = false) :
      Step args bufferSize d { d with input := rest }
  /-- The raw stream gives an error: `distribute` returns it (`entry?`). -/
  | fail {d : Distribution ε} {e : ε} {rest : List (Except ε Entry)}
      (hrun : d.result = none) (hinput : d.input = .error e :: rest) :
      Step args bufferSize d { d with result := some (.error e) }
  /-- The raw stream ends: `distribute` returns `Ok(())`. -/
  | finish {d : Distribution ε} (hrun : d.result = none) (hinput : d.input = []) :
      Step args bufferSize d { d with result := some (.ok ()) }
  /-- A receiver's stream takes the next entry of its channel. -/
  | recv {d : Distribution ε} (r : ℕ) (hqueue : (d.receivers r).queue ≠ []) :
      Step args bufferSize d (d.setReceiver r (d.receivers r).recv)
  /-- A receiver's stream finds its channel empty and closed: `distribute` has returned and
  dropped its senders. -/
  | close {d : Distribution ε} (r : ℕ) (hreturned : d.result.isSome)
      (hqueue : (d.receivers r).queue = []) (hopen : (d.receivers r).ended = false) :
      Step args bufferSize d (d.setReceiver r (d.receivers r).close)

/-! ### Every run delivers each region its entries -/

/-- The invariant of a run over the raw stream `stream`: `distribute` has read some entries off
it, and each receiver holds those sent to its region; a returned `distribute` has no entry left
before an error; and only its return ends a receiver's stream. -/
structure Inv (args : List (ℕ × ℕ)) (stream : List (Except ε Entry)) (d : Distribution ε) :
    Prop where
  read : ∃ consumed : List Entry, stream = consumed.map .ok ++ d.input ∧
    ∀ r, (d.receivers r).Holds (consumed.filter (sentTo args r))
  returned : d.result.isSome → okPrefix d.input = []
  ended : ∀ r, (d.receivers r).ended → d.result.isSome

lemma inv_start (regionIds : List ℕ) (startIds : ℕ → Option ℕ)
    (rawRead : ℕ → Except ε (List (Except ε Entry))) :
    Inv (collectArgs regionIds startIds) (start regionIds startIds rawRead).input
      (start regionIds startIds rawRead) := by
  -- each start has read nothing, with every channel empty
  have hread : ∀ d : Distribution ε, d.receivers = (fun _ => .empty) →
      ∃ consumed : List Entry, d.input = consumed.map .ok ++ d.input ∧
        ∀ r, (d.receivers r).Holds
          (consumed.filter (sentTo (collectArgs regionIds startIds) r)) :=
    fun d hd => ⟨[], rfl, fun r => by simpa [hd] using Receiver.holds_empty⟩
  unfold start
  split
  · exact ⟨hread _ rfl, fun _ => rfl, fun _ h => by simp [Receiver.empty] at h⟩
  · split
    · exact ⟨hread _ rfl, fun _ => rfl, fun _ h => by simp [Receiver.empty] at h⟩
    · exact ⟨hread _ rfl, fun h => by simp at h, fun _ h => by simp [Receiver.empty] at h⟩

section Preserve

variable {args : List (ℕ × ℕ)} {stream : List (Except ε Entry)}

/-- Reading an entry: it joins what `distribute` has read, and goes to its region's channel if it
is sent. -/
lemma Inv.read_entry {d : Distribution ε} (hinv : Inv args stream d) {entry : Entry}
    {rest : List (Except ε Entry)} (hinput : d.input = .ok entry :: rest) :
    ∃ consumed : List Entry, stream = (consumed ++ [entry]).map .ok ++ rest ∧
      ∀ r, (d.receivers r).Holds (consumed.filter (sentTo args r)) := by
  obtain ⟨consumed, hstream, hholds⟩ := hinv.read
  refine ⟨consumed, ?_, hholds⟩
  rw [hstream, hinput]
  simp

lemma Inv.send {d : Distribution ε} (hinv : Inv args stream d) (hrun : d.result = none)
    {entry : Entry} {rest : List (Except ε Entry)} (hinput : d.input = .ok entry :: rest)
    (hsends : sends args entry) :
    Inv args stream ({ d with input := rest }.setReceiver entry.regionId
      ((d.receivers entry.regionId).send entry)) := by
  obtain ⟨consumed, hstream, hholds⟩ := hinv.read_entry hinput
  have hopen : (d.receivers entry.regionId).ended = false := by
    by_contra h
    simpa [hrun] using hinv.ended _ (by simpa using h)
  refine ⟨⟨consumed ++ [entry], hstream, fun r => ?_⟩, fun h => by simp [hrun] at h,
    fun r h => ?_⟩
  · by_cases hr : r = entry.regionId
    · -- the entry goes to its region's channel
      subst hr
      rw [setReceiver_self, List.filter_append, List.filter_singleton, sentTo_of_sends hsends]
      exact (hholds _).send hopen entry
    · rw [setReceiver_of_ne _ _ hr, List.filter_append, List.filter_singleton,
        sentTo_of_ne hr]
      simpa using hholds r
  · by_cases hr : r = entry.regionId
    · subst hr
      simp [hopen] at h
    · rw [setReceiver_of_ne _ _ hr] at h
      exact hinv.ended r h

lemma Inv.skip {d : Distribution ε} (hinv : Inv args stream d) (hrun : d.result = none)
    {entry : Entry} {rest : List (Except ε Entry)} (hinput : d.input = .ok entry :: rest)
    (hsends : sends args entry = false) : Inv args stream { d with input := rest } := by
  obtain ⟨consumed, hstream, hholds⟩ := hinv.read_entry hinput
  -- no region is sent the entry
  have hnot : ∀ r, sentTo args r entry = false := fun r => by simp [sentTo, hsends]
  refine ⟨⟨consumed ++ [entry], hstream, fun r => ?_⟩, fun h => by simp [hrun] at h,
    hinv.ended⟩
  simpa [List.filter_append, hnot r] using hholds r

lemma Inv.fail {d : Distribution ε} (hinv : Inv args stream d) {e : ε}
    {rest : List (Except ε Entry)} (hinput : d.input = .error e :: rest) :
    Inv args stream { d with result := some (.error e) } :=
  ⟨hinv.read, fun _ => by simp [hinput], fun _ _ => rfl⟩

lemma Inv.finish {d : Distribution ε} (hinv : Inv args stream d) (hinput : d.input = []) :
    Inv args stream { d with result := some (.ok ()) } :=
  ⟨hinv.read, fun _ => by simp [hinput], fun _ _ => rfl⟩

/-- A step of a receiver's stream that keeps what it holds and its `ended` flag, or ends it once
`distribute` has returned, keeps the invariant. -/
lemma Inv.setReceiver {d : Distribution ε} (hinv : Inv args stream d) {r : ℕ} {rc : Receiver}
    (hholds : ∀ sent, (d.receivers r).Holds sent → rc.Holds sent)
    (hended : rc.ended → d.result.isSome) : Inv args stream (d.setReceiver r rc) := by
  obtain ⟨consumed, hstream, hall⟩ := hinv.read
  refine ⟨⟨consumed, hstream, fun r' => ?_⟩, hinv.returned, fun r' h => ?_⟩
  · by_cases hr : r' = r
    · subst hr
      rw [setReceiver_self]
      exact hholds _ (hall r')
    · rw [setReceiver_of_ne _ _ hr]
      exact hall r'
  · by_cases hr : r' = r
    · subst hr
      exact hended (by simpa using h)
    · exact hinv.ended r' (by rwa [setReceiver_of_ne _ _ hr] at h)

/-- Every step keeps the invariant. -/
lemma Inv.step {bufferSize : ℕ} {d d' : Distribution ε} (hinv : Inv args stream d)
    (hstep : Step args bufferSize d d') : Inv args stream d' := by
  cases hstep with
  | send hrun hinput hsends _ => exact hinv.send hrun hinput hsends
  | skip hrun hinput hsends => exact hinv.skip hrun hinput hsends
  | fail _ hinput => exact hinv.fail hinput
  | finish _ hinput => exact hinv.finish hinput
  | recv r _ =>
    exact hinv.setReceiver (fun _ h => h.recv) fun h => hinv.ended r (by simpa using h)
  | close r hreturned hqueue _ =>
    exact hinv.setReceiver (fun _ h => h.close hqueue) fun _ => hreturned

/-- The invariant holds along every run. -/
lemma Inv.run {bufferSize : ℕ} {d d' : Distribution ε} (hinv : Inv args stream d)
    (hrun : Relation.ReflTransGen (Step args bufferSize) d d') : Inv args stream d' := by
  induction hrun with
  | refl => exact hinv
  | tail _ hstep ih => exact ih.step hstep

end Preserve

/-- The entries region `r` should be given from the raw stream `stream`: the complete ones sent
to it, from those before the stream's first error. -/
def expected (args : List (ℕ × ℕ)) (stream : List (Except ε Entry)) (r : ℕ) : List Entry :=
  ((okPrefix stream).filter (sentTo args r)).filter Entry.isComplete

section Delivery

variable {args : List (ℕ × ℕ)} {stream : List (Except ε Entry)} {d : Distribution ε}

/-- What `distribute` has read is the start of what the raw stream gives before its first error,
and all of it once `distribute` has returned. -/
lemma Inv.okPrefix_eq {consumed : List Entry} (hstream : stream = consumed.map .ok ++ d.input) :
    okPrefix stream = consumed ++ okPrefix d.input := by
  rw [hstream, okPrefix_map_ok_append]

lemma Inv.out_prefixOf (hinv : Inv args stream d) (r : ℕ) :
    (d.receivers r).out <+: expected args stream r := by
  obtain ⟨consumed, hstream, hholds⟩ := hinv.read
  refine (hholds r).out_prefixOf.trans ?_
  rw [expected, Inv.okPrefix_eq hstream]
  exact ((List.prefix_append _ _).filter _).filter _

lemma Inv.out_eq (hinv : Inv args stream d) {r : ℕ} (hend : (d.receivers r).ended) :
    (d.receivers r).out = expected args stream r := by
  obtain ⟨consumed, hstream, hholds⟩ := hinv.read
  -- an ended stream means `distribute` has returned, with nothing left before an error
  have hread : okPrefix d.input = [] := hinv.returned (hinv.ended r hend)
  rw [(hholds r).out_eq hend, expected, Inv.okPrefix_eq hstream, hread, List.append_nil]

end Delivery

theorem distribute_delivers (regionIds : List ℕ) (startIds : ℕ → Option ℕ)
    (rawRead : ℕ → Except ε (List (Except ε Entry))) (bufferSize : ℕ) {d : Distribution ε}
    (hrun : Relation.ReflTransGen (Step (collectArgs regionIds startIds) bufferSize)
      (start regionIds startIds rawRead) d) (r : ℕ) :
    (d.receivers r).out <+:
        expected (collectArgs regionIds startIds) (start regionIds startIds rawRead).input r ∧
      ((d.receivers r).ended → (d.receivers r).out =
        expected (collectArgs regionIds startIds) (start regionIds startIds rawRead).input r) := by
  have hinv := (inv_start regionIds startIds rawRead).run hrun
  exact ⟨hinv.out_prefixOf r, fun hend => hinv.out_eq hend⟩

/-- A topic holding one entry, of region 1. -/
def oneEntryRead : ℕ → Except Unit (List (Except Unit Entry)) :=
  fun _ => .ok [.ok ⟨0, .naive 1 [7]⟩]

/-- Every receiver reading from id 0. -/
def fromZero : ℕ → Option ℕ := fun _ => some 0

theorem distribute_delivers_oneEntry :
    ∃ d : Distribution Unit,
      Relation.ReflTransGen (Step (collectArgs [1] fromZero) defaultEntryReceiverBufferSize)
        (start [1] fromZero oneEntryRead) d ∧
      (d.receivers 1).out = [⟨0, .naive 1 [7]⟩] ∧
      ((d.receivers 1).out <+:
          expected (collectArgs [1] fromZero) (start [1] fromZero oneEntryRead).input 1 ∧
        ((d.receivers 1).ended →
          (d.receivers 1).out =
            expected (collectArgs [1] fromZero) (start [1] fromZero oneEntryRead).input 1)) := by
  -- `distribute` sends the entry and returns; region 1's stream takes it and ends
  have hrun : Relation.ReflTransGen
      (Step (collectArgs [1] fromZero) defaultEntryReceiverBufferSize)
      (start [1] fromZero oneEntryRead) _ :=
    .tail (.tail (.tail (.single (.send rfl rfl rfl (by decide))) (.finish rfl rfl))
      (.recv 1 (by decide))) (.close 1 rfl (by decide) (by decide))
  exact ⟨_, hrun, by decide, distribute_delivers [1] fromZero oneEntryRead _ hrun 1⟩

/-! ### Every run can be carried on to its end -/

section Progress

variable (args : List (ℕ × ℕ)) (bufferSize : ℕ)

/-- A receiver's stream can take every entry of its channel. -/
lemma exists_drain (d : Distribution ε) (r : ℕ) :
    ∃ rc : Receiver, Relation.ReflTransGen (Step args bufferSize) d (d.setReceiver r rc) ∧
      rc.queue = [] ∧ rc.ended = (d.receivers r).ended := by
  -- one `recv` for each entry of the channel
  generalize hq : (d.receivers r).queue = queue
  induction queue generalizing d with
  | nil => exact ⟨d.receivers r, by simpa using Relation.ReflTransGen.refl, hq, rfl⟩
  | cons next rest ih =>
    have hstep : Step args bufferSize d (d.setReceiver r (d.receivers r).recv) :=
      .recv r (by simp [hq])
    obtain ⟨rc, hrun, hempty, hended⟩ :=
      ih (d.setReceiver r (d.receivers r).recv) (by simpa using Receiver.recv_queue hq)
    exact ⟨rc, .head hstep (by simpa using hrun), hempty, by simpa using hended⟩

/-- `distribute` can run until it returns: an entry it sends waits at most for its channel to be
emptied. -/
lemma exists_returned (hbuf : 0 < bufferSize) (d : Distribution ε) :
    ∃ d', Relation.ReflTransGen (Step args bufferSize) d d' ∧ d'.result.isSome := by
  cases hres : d.result with
  | some res => exact ⟨d, .refl, by simp [hres]⟩
  | none =>
    -- induction on what is left of the raw stream
    generalize hin : d.input = input
    induction input generalizing d with
    | nil => exact ⟨_, .single (.finish hres hin), rfl⟩
    | cons item rest ih =>
      cases item with
      | error e => exact ⟨_, .single (.fail hres hin), rfl⟩
      | ok entry =>
        cases hsends : sends args entry with
        | false =>
          obtain ⟨d', hrun, hret⟩ := ih { d with input := rest } hres rfl
          exact ⟨d', .head (.skip hres hin hsends) hrun, hret⟩
        | true =>
          -- the entry's channel is emptied first, so that it has room
          obtain ⟨rc, hdrain, hempty, -⟩ := exists_drain args bufferSize d entry.regionId
          obtain ⟨d₁, hsend, hres₁, hin₁⟩ : ∃ d₁, Step args bufferSize
              (d.setReceiver entry.regionId rc) d₁ ∧ d₁.result = none ∧ d₁.input = rest :=
            ⟨_, .send (by simpa using hres) (by simpa using hin) hsends (by simp [hempty, hbuf]),
              by simpa using hres, rfl⟩
          obtain ⟨d', hrun, hret⟩ := ih d₁ hres₁ hin₁
          exact ⟨d', hdrain.trans (.head hsend hrun), hret⟩

/-- Once `distribute` has returned, the streams of any regions can be run to their end. -/
lemma exists_ended (d : Distribution ε) (hret : d.result.isSome) (regionIds : List ℕ) :
    ∃ d', Relation.ReflTransGen (Step args bufferSize) d d' ∧ d'.result = d.result ∧
      ∀ r ∈ regionIds, (d'.receivers r).ended := by
  induction regionIds with
  | nil => exact ⟨d, .refl, rfl, by simp⟩
  | cons r rs ih =>
    obtain ⟨d₁, hrun₁, hres₁, hended₁⟩ := ih
    by_cases hr : (d₁.receivers r).ended
    · exact ⟨d₁, hrun₁, hres₁, List.forall_mem_cons.mpr ⟨hr, hended₁⟩⟩
    · -- region `r`'s stream takes what is left in its channel, then ends
      obtain ⟨rc, hdrain, hempty, hopen⟩ := exists_drain args bufferSize d₁ r
      have hclose : Step args bufferSize (d₁.setReceiver r rc) _ :=
        .close r (by simp [hres₁, hret]) (by simpa using hempty) (by simpa [hopen] using hr)
      refine ⟨_, hrun₁.trans (hdrain.tail hclose), by simp [hres₁], fun r' hr' => ?_⟩
      by_cases h : r' = r
      · subst h
        simp
      · rw [setReceiver_of_ne _ _ h, setReceiver_of_ne _ _ h]
        exact hended₁ r' (List.mem_of_ne_of_mem h hr')

end Progress

theorem distribute_completes (regionIds : List ℕ) (startIds : ℕ → Option ℕ)
    (rawRead : ℕ → Except ε (List (Except ε Entry))) {bufferSize : ℕ}
    (hbuf : 0 < bufferSize) {d : Distribution ε}
    (hrun : Relation.ReflTransGen (Step (collectArgs regionIds startIds) bufferSize)
      (start regionIds startIds rawRead) d) :
    ∃ d', Relation.ReflTransGen (Step (collectArgs regionIds startIds) bufferSize) d d' ∧
      d'.result.isSome ∧
      ∀ r ∈ regionIds, (d'.receivers r).ended ∧
        (d'.receivers r).out =
          expected (collectArgs regionIds startIds) (start regionIds startIds rawRead).input r := by
  obtain ⟨d₁, hrun₁, hret₁⟩ :=
    exists_returned (collectArgs regionIds startIds) bufferSize hbuf d
  obtain ⟨d₂, hrun₂, hres₂, hended₂⟩ :=
    exists_ended (collectArgs regionIds startIds) bufferSize d₁ hret₁ regionIds
  -- the run goes on from `d`, so the invariant holds at its end
  have hinv := (inv_start regionIds startIds rawRead).run ((hrun.trans hrun₁).trans hrun₂)
  exact ⟨d₂, hrun₁.trans hrun₂, hres₂ ▸ hret₁,
    fun r hr => ⟨hended₂ r hr, hinv.out_eq (hended₂ r hr)⟩⟩

theorem distribute_completes_oneEntry :
    0 < defaultEntryReceiverBufferSize ∧
      ∃ d' : Distribution Unit,
        Relation.ReflTransGen (Step (collectArgs [1] fromZero) defaultEntryReceiverBufferSize)
          (start [1] fromZero oneEntryRead) d' ∧
        d'.result.isSome ∧
        ∀ r ∈ [1], (d'.receivers r).ended ∧
          (d'.receivers r).out =
            expected (collectArgs [1] fromZero) (start [1] fromZero oneEntryRead).input r :=
  ⟨by decide, distribute_completes [1] fromZero oneEntryRead (by decide) .refl⟩

end Distribution

end Wal

end Greptime
