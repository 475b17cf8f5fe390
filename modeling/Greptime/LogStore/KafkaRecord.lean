import Mathlib.Data.List.AList
import Greptime.Foundations.Except

/-!
# WAL entries as Kafka records (`log_store::kafka`)

A write to the WAL of a region is an entry (`build_entry`): its payload whole when it fits in
`max_data_size` bytes (a naive entry), and otherwise its chunks under the headers `First`,
`Middle(1)`, …, `Middle(n - 2)`, `Last`.  `convert_to_kafka_records` turns each part into a
record that carries its type and its region.

Reading (`KafkaLogStore::read`) gives each record to `maybe_emit_entry`, which keeps the parts
of the entries in progress in a `HashMap` from regions to records: a `Full` record is an entry
at once, a `First` record starts a new entry (and gives back an unfinished one as it is), a
`Middle` record is appended after a check of its sequence number against the last buffered
record, and a `Last` record ends the entry.  At the end of the range `remaining_entries` gives
back what is still buffered.

What is proved (`read_reassembles_writes`):

* for writes of any regions and any interleaving of their records that keeps each region's
  order, reading gives, for each region, the entries of its writes in order, so that the parts
  of each concatenate to its payload;
* on any other stream the read either fails with `IllegalSequence`, or gives back the data of
  every record, in an entry of the record's region.

A stream that puts a `Middle(2)` right after a `First` of the same region fails
(`read_first_middle_two_fails`): its data is in no entry.

The buffer is modelled as an `AList`: the order of `HashMap` iteration, in which
`remaining_entries` drains it, is not fixed, and every statement below reads the buffer by
its lookups or up to the order of its entries.  A record is what `Record::try_from` decodes
from the Kafka record `convert_to_kafka_records` produced; the JSON of its meta, its entry id
and the size check of the meta are left out.
-/

namespace Greptime

namespace Kafka

/-- `RecordType`. -/
inductive RecordType
  | full
  | first
  | middle (seq : ℕ)
  | last
  deriving DecidableEq, Repr

/-- `Record`: its type, the region of its entry and its part of the payload. -/
structure Record where
  tp : RecordType
  regionId : ℕ
  data : List UInt8
  deriving DecidableEq, Repr

/-- `MultiplePartHeader`. -/
inductive MultiplePartHeader
  | first
  | middle (seq : ℕ)
  | last
  deriving DecidableEq, Repr

/-- `Entry`, without its provider and entry id. -/
inductive Entry
  | naive (regionId : ℕ) (data : List UInt8)
  | multiplePart (regionId : ℕ) (headers : List MultiplePartHeader) (parts : List (List UInt8))
  deriving DecidableEq, Repr

/-- `Entry::region_id`. -/
def Entry.regionId : Entry → ℕ
  | .naive regionId _ | .multiplePart regionId _ _ => regionId

/-- The parts of an entry's payload. -/
def Entry.parts : Entry → List (List UInt8)
  | .naive _ data => [data]
  | .multiplePart _ _ parts => parts

/-- The errors of reading records. -/
inductive ReadError
  /-- `IllegalSequence`: a `Middle` record that does not follow the last buffered record. -/
  | illegalSequence (lastType incoming : RecordType)
  /-- The `unreachable!` of `convert_to_multiple_entry` on a `Full` record. -/
  | unreachable
  deriving DecidableEq, Repr

/-! ## Writing -/

-- h is read by the termination proof only
set_option linter.unusedVariables false in
/-- `<[T]>::chunks`: pieces of `size` elements, the last one shorter.  A size of zero, on which
the source panics, gives no pieces. -/
def chunks {α : Type} (size : ℕ) (xs : List α) : List (List α) :=
  if h : 0 < size ∧ xs ≠ [] then xs.take size :: chunks size (xs.drop size) else []
termination_by xs.length
decreasing_by
  have : xs.length ≠ 0 := fun hl => h.2 (List.eq_nil_of_length_eq_zero hl)
  simp only [List.length_drop]
  omega

/-- `build_entry`. -/
def buildEntry (data : List UInt8) (regionId maxDataSize : ℕ) : Entry :=
  if data.length ≤ maxDataSize then .naive regionId data
  else
    let parts := chunks maxDataSize data
    let numParts := parts.length
    .multiplePart regionId
      ([.first] ++ (List.range' 1 (numParts - 2)).map .middle ++ [.last]) parts

/-- The record type of a header. -/
def MultiplePartHeader.recordType : MultiplePartHeader → RecordType
  | .first => .first
  | .middle seq => .middle seq
  | .last => .last

/-- `convert_to_kafka_records`, each record as `Record::try_from` reads it back.  The source
indexes the headers by the part; the entries `build_entry` makes have as many of each. -/
def convertToKafkaRecords : Entry → List Record
  | .naive regionId data => [⟨.full, regionId, data⟩]
  | .multiplePart regionId headers parts =>
    List.zipWith (fun header part => ⟨header.recordType, regionId, part⟩) headers parts

/-! ## Reading -/

/-- The header of a buffered record. -/
def RecordType.header : RecordType → Except ReadError MultiplePartHeader
  | .full => .error .unreachable
  | .first => .ok .first
  | .middle seq => .ok (.middle seq)
  | .last => .ok .last

/-- `convert_to_naive_entry`. -/
def convertToNaiveEntry (record : Record) : Entry := .naive record.regionId record.data

/-- `convert_to_multiple_entry`. -/
def convertToMultipleEntry (regionId : ℕ) (records : List Record) : Except ReadError Entry := do
  let headers ← records.mapM (·.tp.header)
  pure (.multiplePart regionId headers (records.map (·.data)))

/-- The records buffered for each region. -/
abbrev Buffer := AList fun _ : ℕ => List Record

/-- Whether a `Middle(seq)` may follow a buffered record of type `lastType`. -/
def legal (lastType : RecordType) (seq : ℕ) : Bool :=
  match lastType with
  | .first => seq == 1
  | .middle lastSeq => lastSeq + 1 == seq
  | _ => false

/-- `maybe_emit_entry`: the entry the record completes, if any, and the buffer after it. -/
def maybeEmitEntry (record : Record) (buffered : Buffer) :
    Except ReadError (Option Entry × Buffer) :=
  match record.tp with
  | .full => pure (some (convertToNaiveEntry record), buffered)
  | .first =>
    match buffered.lookup record.regionId with
    | some records => do
      let entry ← convertToMultipleEntry record.regionId records
      pure (some entry, buffered.insert record.regionId [record])
    | none => pure (none, buffered.insert record.regionId [record])
  | .middle seq =>
    let records := (buffered.lookup record.regionId).getD []
    match records.getLast? with
    | some lastRecord =>
      if legal lastRecord.tp seq then
        pure (none, buffered.insert record.regionId (records ++ [record]))
      else .error (.illegalSequence lastRecord.tp record.tp)
    | none => pure (none, buffered.insert record.regionId [record])
  | .last =>
    match buffered.lookup record.regionId with
    | some records => do
      let entry ← convertToMultipleEntry record.regionId (records ++ [record])
      pure (some entry, buffered.erase record.regionId)
    | none => do
      let entry ← convertToMultipleEntry record.regionId [record]
      pure (some entry, buffered)

/-- `remaining_entries`: an entry for each region with records buffered. -/
def remainingEntries (buffered : Buffer) : Except ReadError (List Entry) :=
  buffered.entries.mapM fun entry => convertToMultipleEntry entry.1 entry.2

/-- The record loop of `KafkaLogStore::read`. -/
def readLoop : List Record → Buffer → Except ReadError (List Entry × Buffer)
  | [], buffered => pure ([], buffered)
  | record :: records, buffered => do
    let (entry, buffered) ← maybeEmitEntry record buffered
    let (entries, buffered) ← readLoop records buffered
    pure (entry.toList ++ entries, buffered)

/-- `KafkaLogStore::read` over a range of records: the entries the loop emits, then those
`remaining_entries` gives at the end of the range. -/
def read (records : List Record) : Except ReadError (List Entry) := do
  let (entries, buffered) ← readLoop records ∅
  let rest ← remainingEntries buffered
  pure (entries ++ rest)

/-! ## Entries and their records -/

lemma convertToMultipleEntry_eq_ok {regionId : ℕ} {records : List Record} {entry : Entry} :
    convertToMultipleEntry regionId records = .ok entry ↔
      ∃ headers, records.mapM (·.tp.header) = .ok headers ∧
        entry = .multiplePart regionId headers (records.map (·.data)) := by
  simp only [convertToMultipleEntry, Except.bind_eq_ok, pure, Except.pure, Except.ok.injEq]
  exact exists_congr fun _ => and_congr_right fun _ => eq_comm

lemma regionId_of_convertToMultipleEntry {regionId : ℕ} {records : List Record} {entry : Entry}
    (h : convertToMultipleEntry regionId records = .ok entry) : entry.regionId = regionId := by
  obtain ⟨_, -, rfl⟩ := convertToMultipleEntry_eq_ok.mp h
  rfl

lemma parts_of_convertToMultipleEntry {regionId : ℕ} {records : List Record} {entry : Entry}
    (h : convertToMultipleEntry regionId records = .ok entry) :
    entry.parts = records.map (·.data) := by
  obtain ⟨_, -, rfl⟩ := convertToMultipleEntry_eq_ok.mp h
  rfl

/-- Buffered records that are not `Full` always convert. -/
lemma convertToMultipleEntry_ok (regionId : ℕ) {records : List Record}
    (h : ∀ record ∈ records, record.tp ≠ .full) :
    ∃ entry, convertToMultipleEntry regionId records = .ok entry := by
  have hheader : ∀ record ∈ records, ∃ header, record.tp.header = .ok header := by
    intro record hrecord
    cases htp : record.tp with
    | full => exact absurd htp (h record hrecord)
    | first => exact ⟨_, rfl⟩
    | middle seq => exact ⟨_, rfl⟩
    | last => exact ⟨_, rfl⟩
  obtain ⟨headers, hheaders⟩ := Except.exists_mapM_eq_ok hheader
  exact ⟨_, convertToMultipleEntry_eq_ok.mpr ⟨headers, hheaders, rfl⟩⟩

lemma header_recordType (header : MultiplePartHeader) : header.recordType.header = .ok header := by
  cases header <;> rfl

lemma map_data_convertToKafkaRecords (regionId : ℕ) {headers : List MultiplePartHeader} :
    ∀ {parts : List (List UInt8)}, headers.length = parts.length →
      (convertToKafkaRecords (.multiplePart regionId headers parts)).map (·.data) = parts := by
  induction headers with
  | nil => intro parts hlength; cases parts <;> simp_all [convertToKafkaRecords]
  | cons header headers ih =>
    intro parts hlength
    cases parts with
    | nil => simp at hlength
    | cons part parts =>
      have hrest := ih (by simpa using hlength : headers.length = parts.length)
      simp only [convertToKafkaRecords] at hrest
      simp [convertToKafkaRecords, hrest]

lemma mapM_header_convertToKafkaRecords (regionId : ℕ) {headers : List MultiplePartHeader} :
    ∀ {parts : List (List UInt8)}, headers.length = parts.length →
      (convertToKafkaRecords (.multiplePart regionId headers parts)).mapM (·.tp.header) =
        .ok headers := by
  induction headers with
  | nil => intro parts _; rfl
  | cons header headers ih =>
    intro parts hlength
    cases parts with
    | nil => simp at hlength
    | cons part parts =>
      have hrest := ih (by simpa using hlength : headers.length = parts.length)
      simp only [convertToKafkaRecords] at hrest
      simp [convertToKafkaRecords, List.mapM_cons, header_recordType, hrest, bind, Except.bind,
        pure, Except.pure]

/-- The records of a multi-part entry convert back to it. -/
lemma convertToMultipleEntry_convertToKafkaRecords (regionId : ℕ)
    {headers : List MultiplePartHeader} {parts : List (List UInt8)}
    (hlength : headers.length = parts.length) :
    convertToMultipleEntry regionId (convertToKafkaRecords (.multiplePart regionId headers parts)) =
      .ok (.multiplePart regionId headers parts) :=
  convertToMultipleEntry_eq_ok.mpr ⟨headers, mapM_header_convertToKafkaRecords regionId hlength,
    by rw [map_data_convertToKafkaRecords regionId hlength]⟩

/-! ## One region at a time

`maybe_emit_entry` reads and writes only the buffer of the record's region.  `emitOn` is what
it does there; `readLoop` restricted to a region is `slotLoop` on that region's records. -/

/-- `maybe_emit_entry` seen from the record's region: the entry it emits and the records that
stay buffered for the region. -/
def emitOn (record : Record) (records : Option (List Record)) :
    Except ReadError (Option Entry × Option (List Record)) :=
  match record.tp with
  | .full => pure (some (convertToNaiveEntry record), records)
  | .first =>
    match records with
    | some records => do
      let entry ← convertToMultipleEntry record.regionId records
      pure (some entry, some [record])
    | none => pure (none, some [record])
  | .middle seq =>
    let records := records.getD []
    match records.getLast? with
    | some lastRecord =>
      if legal lastRecord.tp seq then pure (none, some (records ++ [record]))
      else .error (.illegalSequence lastRecord.tp record.tp)
    | none => pure (none, some [record])
  | .last =>
    match records with
    | some records => do
      let entry ← convertToMultipleEntry record.regionId (records ++ [record])
      pure (some entry, none)
    | none => do
      let entry ← convertToMultipleEntry record.regionId [record]
      pure (some entry, none)

/-- The region's buffer after `maybe_emit_entry` is the one `emitOn` gives. -/
theorem maybeEmitEntry_lookup (record : Record) (buffered : Buffer) :
    (maybeEmitEntry record buffered).map (fun p => (p.1, p.2.lookup record.regionId)) =
      emitOn record (buffered.lookup record.regionId) := by
  obtain ⟨tp, regionId, data⟩ := record
  cases tp with
  | full => rfl
  | first =>
    cases hlookup : buffered.lookup regionId with
    | some records =>
      cases hc : convertToMultipleEntry regionId records <;>
        simp [maybeEmitEntry, emitOn, hlookup, hc, bind, Except.bind, pure, Except.pure,
          Except.map, AList.lookup_insert]
    | none =>
      simp [maybeEmitEntry, emitOn, hlookup, pure, Except.pure, Except.map, AList.lookup_insert]
  | middle seq =>
    simp only [maybeEmitEntry, emitOn]
    split
    · split <;> simp [pure, Except.pure, Except.map, AList.lookup_insert]
    · simp [pure, Except.pure, Except.map, AList.lookup_insert]
  | last =>
    cases hlookup : buffered.lookup regionId with
    | some records =>
      cases hc : convertToMultipleEntry regionId (records ++ [⟨.last, regionId, data⟩]) <;>
        simp [maybeEmitEntry, emitOn, hlookup, hc, bind, Except.bind, pure, Except.pure,
          Except.map, AList.lookup_erase]
    | none =>
      cases hc : convertToMultipleEntry regionId [⟨.last, regionId, data⟩] <;>
        simp [maybeEmitEntry, emitOn, hlookup, hc, bind, Except.bind, pure, Except.pure,
          Except.map]

/-- A step of `maybe_emit_entry` that succeeds is the step `emitOn` takes on the record's region. -/
lemma emitOn_of_maybeEmitEntry {record : Record} {buffered mid : Buffer} {entry : Option Entry}
    (hstep : maybeEmitEntry record buffered = .ok (entry, mid)) :
    emitOn record (buffered.lookup record.regionId) = .ok (entry, mid.lookup record.regionId) := by
  rw [← maybeEmitEntry_lookup, hstep]
  rfl

lemma emitOn_of_maybeEmitEntry_error {record : Record} {buffered : Buffer} {e : ReadError}
    (hstep : maybeEmitEntry record buffered = .error e) :
    emitOn record (buffered.lookup record.regionId) = .error e := by
  rw [← maybeEmitEntry_lookup, hstep]
  rfl

/-- The buffers of the other regions are left as they are. -/
theorem maybeEmitEntry_lookup_ne {record : Record} {buffered buffered' : Buffer}
    {entry : Option Entry} (h : maybeEmitEntry record buffered = .ok (entry, buffered'))
    {regionId : ℕ} (hne : regionId ≠ record.regionId) :
    buffered'.lookup regionId = buffered.lookup regionId := by
  unfold maybeEmitEntry at h
  split at h
  · cases h
    rfl
  · split at h
    · obtain ⟨_, -, h⟩ := Except.bind_eq_ok.mp h
      cases h
      exact AList.lookup_insert_ne hne
    · cases h
      exact AList.lookup_insert_ne hne
  · dsimp only at h
    split at h
    · split at h
      · cases h
        exact AList.lookup_insert_ne hne
      · cases h
    · cases h
      exact AList.lookup_insert_ne hne
  · split at h
    · obtain ⟨_, -, h⟩ := Except.bind_eq_ok.mp h
      cases h
      exact AList.lookup_erase_ne hne
    · obtain ⟨_, -, h⟩ := Except.bind_eq_ok.mp h
      cases h
      rfl

lemma regionId_of_emitOn {record : Record} {records records' : Option (List Record)}
    {entry : Entry} (h : emitOn record records = .ok (some entry, records')) :
    entry.regionId = record.regionId := by
  obtain ⟨tp, regionId, data⟩ := record
  cases tp with
  | full =>
    cases h
    rfl
  | first =>
    cases records with
    | some records =>
      obtain ⟨entry', hc, h⟩ := Except.bind_eq_ok.mp h
      cases h
      exact regionId_of_convertToMultipleEntry hc
    | none => cases h
  | middle seq =>
    simp only [emitOn] at h
    split at h
    · split at h <;> cases h
    · cases h
  | last =>
    cases records with
    | some records =>
      obtain ⟨entry', hc, h⟩ := Except.bind_eq_ok.mp h
      cases h
      exact regionId_of_convertToMultipleEntry hc
    | none =>
      obtain ⟨entry', hc, h⟩ := Except.bind_eq_ok.mp h
      cases h
      exact regionId_of_convertToMultipleEntry hc

/-- The records of one region through `emitOn`, from the records buffered for it. -/
def slotLoop : List Record → Option (List Record) →
    Except ReadError (List Entry × Option (List Record))
  | [], records => pure ([], records)
  | record :: rest, records => do
    let (entry, records) ← emitOn record records
    let (entries, records) ← slotLoop rest records
    pure (entry.toList ++ entries, records)

lemma slotLoop_cons_of_none {record : Record} {records records' : Option (List Record)}
    (h : emitOn record records = .ok (none, records')) (rest : List Record) :
    slotLoop (record :: rest) records = slotLoop rest records' := by
  simp only [slotLoop, h, bind, Except.bind, Option.toList, List.nil_append]
  cases slotLoop rest records' <;> rfl

lemma slotLoop_cons_of_some {record : Record} {records records' : Option (List Record)}
    {entry : Entry} (h : emitOn record records = .ok (some entry, records')) (rest : List Record) :
    slotLoop (record :: rest) records =
      (slotLoop rest records').map fun out => (entry :: out.1, out.2) := by
  simp only [slotLoop, h, bind, Except.bind, Option.toList]
  cases slotLoop rest records' <;> rfl

/-- A read that succeeds is, region by region, the loop over that region's records. -/
theorem readLoop_filter (regionId : ℕ) {records : List Record} {buffered buffered' : Buffer}
    {entries : List Entry} (h : readLoop records buffered = .ok (entries, buffered')) :
    slotLoop (records.filter (·.regionId = regionId)) (buffered.lookup regionId) =
      .ok (entries.filter (·.regionId = regionId), buffered'.lookup regionId) := by
  induction records generalizing buffered entries with
  | nil =>
    cases h
    rfl
  | cons record records ih =>
    obtain ⟨⟨entry, mid⟩, hstep, h⟩ := Except.bind_eq_ok.mp h
    obtain ⟨⟨entries', final⟩, hrest, h⟩ := Except.bind_eq_ok.mp h
    cases h
    have hloop := ih hrest
    by_cases hregion : record.regionId = regionId
    · subst hregion
      have hslot := emitOn_of_maybeEmitEntry hstep
      have hentry : entry.toList.filter (·.regionId = record.regionId) = entry.toList := by
        cases entry with
        | none => rfl
        | some e => simp [regionId_of_emitOn hslot]
      simp [slotLoop, hslot, hloop, hentry, bind, Except.bind, pure, Except.pure]
    · have hframe := maybeEmitEntry_lookup_ne hstep (Ne.symm hregion)
      have hentry : entry.toList.filter (·.regionId = regionId) = [] := by
        cases entry with
        | none => rfl
        | some e =>
          have hslot := emitOn_of_maybeEmitEntry hstep
          simp [regionId_of_emitOn hslot, hregion]
      rw [← hframe]
      simp [hregion, hloop, hentry]

/-- A read succeeds when the loop of every region succeeds. -/
theorem readLoop_ok {records : List Record} {buffered : Buffer}
    (h : ∀ regionId, ∃ out, slotLoop (records.filter (·.regionId = regionId))
      (buffered.lookup regionId) = .ok out) :
    ∃ out, readLoop records buffered = .ok out := by
  induction records generalizing buffered with
  | nil => exact ⟨_, rfl⟩
  | cons record records ih =>
    obtain ⟨out, hout⟩ := h record.regionId
    rw [List.filter_cons_of_pos (by simp)] at hout
    obtain ⟨⟨entry, records'⟩, hslot, hout⟩ := Except.bind_eq_ok.mp hout
    obtain ⟨⟨entries, final⟩, hrest, -⟩ := Except.bind_eq_ok.mp hout
    obtain ⟨⟨entry', mid⟩, hstep, heq⟩ := Except.map_eq_ok.mp
      ((maybeEmitEntry_lookup record buffered).trans hslot)
    simp only [Prod.mk.injEq] at heq
    obtain ⟨rfl, rfl⟩ := heq
    have hmid : ∀ regionId, ∃ out, slotLoop (records.filter (·.regionId = regionId))
        (mid.lookup regionId) = .ok out := by
      intro regionId
      by_cases hregion : record.regionId = regionId
      · subst hregion
        exact ⟨_, hrest⟩
      · obtain ⟨out, hout⟩ := h regionId
        rw [maybeEmitEntry_lookup_ne hstep (Ne.symm hregion)]
        simp only [List.filter_cons, hregion, decide_false] at hout
        exact ⟨out, hout⟩
    obtain ⟨⟨entries', final'⟩, hloop⟩ := ih hmid
    exact ⟨(entry'.toList ++ entries', final'),
      by simp [readLoop, hstep, hloop, bind, Except.bind, pure, Except.pure]⟩

/-! ## The writes of a region, read back -/

lemma flatten_chunks {α : Type} {size : ℕ} (hsize : 0 < size) (xs : List α) :
    (chunks size xs).flatten = xs := by
  fun_induction chunks size xs with
  | case1 xs h ih => simp [ih]
  | case2 xs h =>
    have hnil : xs = [] := by
      by_contra hne
      exact h ⟨hsize, hne⟩
    simp [hnil]

lemma two_le_length_chunks {α : Type} {size : ℕ} (hsize : 0 < size) {xs : List α}
    (hlength : size < xs.length) : 2 ≤ (chunks size xs).length := by
  have hxs : xs ≠ [] := by
    rintro rfl
    simp at hlength
  have hdrop : xs.drop size ≠ [] := by
    intro hnil
    have := congrArg List.length hnil
    simp only [List.length_drop, List.length_nil] at this
    omega
  rw [chunks, dif_pos ⟨hsize, hxs⟩, chunks, dif_pos ⟨hsize, hdrop⟩]
  simp

/-- The parts of an entry concatenate to the payload it was built from. -/
theorem flatten_parts_buildEntry {maxDataSize : ℕ} (hmax : 0 < maxDataSize) (data : List UInt8)
    (regionId : ℕ) : (buildEntry data regionId maxDataSize).parts.flatten = data := by
  unfold buildEntry
  split
  · simp [Entry.parts]
  · simp [Entry.parts, flatten_chunks hmax]

lemma slotLoop_middles (regionId : ℕ) (rest : List Record) (parts : List (List UInt8)) :
    ∀ (seq : ℕ) (records : List Record) (lastRecord : Record),
      records.getLast? = some lastRecord → legal lastRecord.tp seq →
      slotLoop (List.zipWith (fun seq part => ⟨.middle seq, regionId, part⟩)
          (List.range' seq parts.length) parts ++ rest) (some records) =
        slotLoop rest (some (records ++ List.zipWith (fun seq part => ⟨.middle seq, regionId, part⟩)
          (List.range' seq parts.length) parts)) := by
  induction parts with
  | nil => intro seq records lastRecord _ _; simp
  | cons part parts ih =>
    intro seq records lastRecord hlast hlegal
    have hstep : emitOn ⟨.middle seq, regionId, part⟩ (some records) =
        .ok (none, some (records ++ [⟨.middle seq, regionId, part⟩])) := by
      simp [emitOn, hlast, hlegal, pure, Except.pure]
    have hnext := ih (seq + 1) (records ++ [⟨.middle seq, regionId, part⟩])
      ⟨.middle seq, regionId, part⟩ (by simp) (by simp [legal])
    simp only [List.length_cons, List.range'_succ, List.zipWith_cons_cons, List.cons_append]
    rw [slotLoop_cons_of_none hstep, hnext, List.append_assoc, List.singleton_append]

/-- The records of a written entry, read in its region from an empty buffer, give the entry
back and leave the buffer empty. -/
theorem slotLoop_buildEntry {maxDataSize : ℕ} (hmax : 0 < maxDataSize) (data : List UInt8)
    (regionId : ℕ) (rest : List Record) :
    slotLoop (convertToKafkaRecords (buildEntry data regionId maxDataSize) ++ rest) none =
      (slotLoop rest none).map fun out => (buildEntry data regionId maxDataSize :: out.1, out.2) := by
  unfold buildEntry
  split
  · exact slotLoop_cons_of_some rfl rest
  · rename_i hlong
    have hlen := two_le_length_chunks hmax (show maxDataSize < data.length by omega)
    dsimp only
    generalize chunks maxDataSize data = parts at hlen ⊢
    obtain ⟨p0, tail, rfl⟩ : ∃ p0 tail, parts = p0 :: tail := by
      cases parts with
      | nil => simp at hlen
      | cons p0 tail => exact ⟨p0, tail, rfl⟩
    obtain ⟨ps, pl, rfl⟩ : ∃ ps pl, tail = ps ++ [pl] := by
      have htail : tail ≠ [] := by
        rintro rfl
        simp at hlen
      exact ⟨tail.dropLast, tail.getLast htail, (List.dropLast_append_getLast htail).symm⟩
    have hn : (p0 :: (ps ++ [pl])).length - 2 = ps.length := by simp
    rw [hn]
    have hrecords : convertToKafkaRecords (.multiplePart regionId
        ([.first] ++ (List.range' 1 ps.length).map .middle ++ [.last]) (p0 :: (ps ++ [pl]))) =
        ⟨.first, regionId, p0⟩ :: (List.zipWith (fun seq part => ⟨.middle seq, regionId, part⟩)
          (List.range' 1 ps.length) ps ++ [⟨.last, regionId, pl⟩]) := by
      simp [convertToKafkaRecords, List.zipWith_append, List.zipWith_map_left,
        MultiplePartHeader.recordType]
    have hconvert := @convertToMultipleEntry_convertToKafkaRecords regionId
      ([.first] ++ (List.range' 1 ps.length).map .middle ++ [.last]) (p0 :: (ps ++ [pl]))
      (by simp)
    rw [hrecords] at hconvert ⊢
    have hlast : emitOn ⟨.last, regionId, pl⟩ (some ([⟨.first, regionId, p0⟩] ++
        List.zipWith (fun seq part => ⟨.middle seq, regionId, part⟩) (List.range' 1 ps.length) ps)) =
        .ok (some (.multiplePart regionId
          ([.first] ++ (List.range' 1 ps.length).map .middle ++ [.last]) (p0 :: (ps ++ [pl]))),
          none) := by
      have hconvert' : convertToMultipleEntry regionId ([⟨.first, regionId, p0⟩] ++
          List.zipWith (fun seq part => ⟨.middle seq, regionId, part⟩) (List.range' 1 ps.length) ps ++
            [⟨.last, regionId, pl⟩]) = _ := hconvert
      simp only [emitOn, hconvert']
      rfl
    rw [List.cons_append, slotLoop_cons_of_none rfl, List.append_assoc,
      slotLoop_middles regionId _ ps 1 [⟨.first, regionId, p0⟩] ⟨.first, regionId, p0⟩ rfl rfl,
      List.singleton_append, slotLoop_cons_of_some hlast]

/-- The writes of one region, read in order from an empty buffer, give their entries in order
and leave the buffer empty. -/
theorem slotLoop_writes {maxDataSize : ℕ} (hmax : 0 < maxDataSize) (regionId : ℕ) :
    ∀ writes : List (ℕ × List UInt8), (∀ write ∈ writes, write.1 = regionId) →
      slotLoop (writes.flatMap fun write =>
          convertToKafkaRecords (buildEntry write.2 write.1 maxDataSize)) none =
        .ok (writes.map fun write => buildEntry write.2 write.1 maxDataSize, none)
  | [], _ => rfl
  | write :: writes, hregion => by
    obtain ⟨regionId', data⟩ := write
    obtain rfl : regionId' = regionId := hregion _ List.mem_cons_self
    have hrest := slotLoop_writes hmax regionId' writes
      fun w hw => hregion w (List.mem_cons_of_mem _ hw)
    rw [List.flatMap_cons, slotLoop_buildEntry hmax, hrest]
    rfl

/-! ## The data of every record -/

lemma perm_emitOn {record : Record} {records records' : Option (List Record)}
    {entry : Option Entry} (h : emitOn record records = .ok (entry, records')) :
    (entry.toList.flatMap Entry.parts ++ (records'.getD []).map (·.data)).Perm
      ((records.getD []).map (·.data) ++ [record.data]) := by
  obtain ⟨tp, regionId, data⟩ := record
  cases tp with
  | full =>
    cases h
    simpa [convertToNaiveEntry, Entry.parts] using (List.perm_append_singleton _ _).symm
  | first =>
    cases records with
    | some records =>
      obtain ⟨entry', hc, h⟩ := Except.bind_eq_ok.mp h
      cases h
      simp [parts_of_convertToMultipleEntry hc]
    | none =>
      cases h
      simp
  | middle seq =>
    simp only [emitOn] at h
    split at h
    · split at h
      · cases h
        simp
      · cases h
    · rename_i hlast
      cases h
      have hnil : records.getD [] = [] := List.getLast?_eq_none_iff.mp hlast
      simp [hnil]
  | last =>
    cases records with
    | some records =>
      obtain ⟨entry', hc, h⟩ := Except.bind_eq_ok.mp h
      cases h
      simp [parts_of_convertToMultipleEntry hc]
    | none =>
      obtain ⟨entry', hc, h⟩ := Except.bind_eq_ok.mp h
      cases h
      simp [parts_of_convertToMultipleEntry hc]

/-- Along the loop of a region, the data emitted and the data still buffered are, up to order,
the data buffered at the start and the data of the records read. -/
theorem perm_slotLoop {records : List Record} {buffered buffered' : Option (List Record)}
    {entries : List Entry} (h : slotLoop records buffered = .ok (entries, buffered')) :
    (entries.flatMap Entry.parts ++ (buffered'.getD []).map (·.data)).Perm
      ((buffered.getD []).map (·.data) ++ records.map (·.data)) := by
  induction records generalizing buffered entries with
  | nil =>
    cases h
    simp
  | cons record records ih =>
    obtain ⟨⟨entry, mid⟩, hstep, h⟩ := Except.bind_eq_ok.mp h
    obtain ⟨⟨entries', final⟩, hrest, h⟩ := Except.bind_eq_ok.mp h
    cases h
    have hfirst := perm_emitOn hstep
    have hloop := ih hrest
    calc (entry.toList ++ entries').flatMap Entry.parts ++ (buffered'.getD []).map (·.data)
        = entry.toList.flatMap Entry.parts ++
            (entries'.flatMap Entry.parts ++ (buffered'.getD []).map (·.data)) := by simp
      List.Perm _ (entry.toList.flatMap Entry.parts ++
            ((mid.getD []).map (·.data) ++ records.map (·.data))) := hloop.append_left _
      _ = (entry.toList.flatMap Entry.parts ++ (mid.getD []).map (·.data)) ++
            records.map (·.data) := by simp
      List.Perm _ (((buffered.getD []).map (·.data) ++ [record.data]) ++ records.map (·.data)) :=
        hfirst.append_right _
      _ = (buffered.getD []).map (·.data) ++ (record :: records).map (·.data) := by simp

/-- What `remaining_entries` gives for a region is what is buffered for it. -/
lemma remainingEntries_filter (regionId : ℕ) {buffered : Buffer} {entries : List Entry}
    (h : remainingEntries buffered = .ok entries) :
    (entries.filter (·.regionId = regionId)).flatMap Entry.parts =
      ((buffered.lookup regionId).getD []).map (·.data) := by
  obtain ⟨l, hnodup⟩ := buffered
  simp only [remainingEntries, AList.lookup] at h ⊢
  induction l generalizing entries with
  | nil =>
    cases h
    rfl
  | cons entry l ih =>
    obtain ⟨key, records⟩ := entry
    rw [List.nodupKeys_cons] at hnodup
    rw [List.mapM_cons] at h
    obtain ⟨first, hfirst, h⟩ := Except.bind_eq_ok.mp h
    obtain ⟨rest, hrest, h⟩ := Except.bind_eq_ok.mp h
    cases h
    have hloop := ih hnodup.2 hrest
    have hregion := regionId_of_convertToMultipleEntry hfirst
    by_cases hkey : key = regionId
    · subst hkey
      have hnone : l.dlookup key = none := List.dlookup_eq_none.mpr hnodup.1
      simp only [hnone, Option.getD_none, List.map_nil] at hloop
      simp [hregion, hloop, List.dlookup_cons_eq, parts_of_convertToMultipleEntry hfirst]
    · simp [hregion, hkey, hloop, List.dlookup_cons_ne l ⟨key, records⟩ (Ne.symm hkey)]

/-! ## Failures -/

/-- No record buffered for a region is `Full`. -/
def NoFull (records : Option (List Record)) : Prop :=
  ∀ record ∈ records.getD [], record.tp ≠ .full

lemma noFull_emitOn {record : Record} {records records' : Option (List Record)}
    {entry : Option Entry} (h : emitOn record records = .ok (entry, records'))
    (hfull : NoFull records) : NoFull records' := by
  obtain ⟨tp, regionId, data⟩ := record
  cases tp with
  | full =>
    cases h
    exact hfull
  | first =>
    cases records with
    | some records =>
      obtain ⟨_, -, h⟩ := Except.bind_eq_ok.mp h
      cases h
      simp [NoFull]
    | none =>
      cases h
      simp [NoFull]
  | middle seq =>
    simp only [emitOn] at h
    split at h
    · split at h
      · cases h
        intro x hx
        simp only [Option.getD_some, List.mem_append, List.mem_singleton] at hx
        rcases hx with hx | rfl
        · exact hfull x hx
        · simp
      · cases h
    · cases h
      simp [NoFull]
  | last =>
    cases records with
    | some records =>
      obtain ⟨_, -, h⟩ := Except.bind_eq_ok.mp h
      cases h
      simp [NoFull]
    | none =>
      obtain ⟨_, -, h⟩ := Except.bind_eq_ok.mp h
      cases h
      simp [NoFull]

/-- With no `Full` record buffered, a record of a region fails only on an illegal sequence. -/
lemma illegalSequence_of_emitOn {record : Record} {records : Option (List Record)}
    {e : ReadError} (h : emitOn record records = .error e) (hfull : NoFull records) :
    ∃ lastType incoming, e = .illegalSequence lastType incoming := by
  obtain ⟨tp, regionId, data⟩ := record
  cases tp with
  | full => cases h
  | first =>
    cases records with
    | some records =>
      obtain ⟨entry, hentry⟩ := convertToMultipleEntry_ok regionId hfull
      simp only [Option.getD_some] at hentry
      simp [emitOn, hentry, bind, Except.bind, pure, Except.pure] at h
    | none => cases h
  | middle seq =>
    simp only [emitOn] at h
    split at h
    · split at h
      · cases h
      · cases h
        exact ⟨_, _, rfl⟩
    · cases h
  | last =>
    have hconvert : ∀ records : List Record, NoFull (some records) →
        ∃ entry, convertToMultipleEntry regionId (records ++ [⟨.last, regionId, data⟩]) =
          .ok entry := by
      intro records hrecords
      apply convertToMultipleEntry_ok
      intro x hx
      simp only [List.mem_append, List.mem_singleton] at hx
      rcases hx with hx | rfl
      · exact hrecords x hx
      · simp
    cases records with
    | some records =>
      obtain ⟨entry, hentry⟩ := hconvert records hfull
      simp [emitOn, hentry, bind, Except.bind, pure, Except.pure] at h
    | none =>
      obtain ⟨entry, hentry⟩ := hconvert [] (by simp [NoFull])
      simp only [List.nil_append] at hentry
      simp [emitOn, hentry, bind, Except.bind, pure, Except.pure] at h

lemma noFull_slotLoop {records : List Record} {buffered buffered' : Option (List Record)}
    {entries : List Entry} (h : slotLoop records buffered = .ok (entries, buffered'))
    (hfull : NoFull buffered) : NoFull buffered' := by
  induction records generalizing buffered entries with
  | nil =>
    cases h
    exact hfull
  | cons record records ih =>
    obtain ⟨⟨entry, mid⟩, hstep, h⟩ := Except.bind_eq_ok.mp h
    obtain ⟨⟨entries', final⟩, hrest, h⟩ := Except.bind_eq_ok.mp h
    cases h
    exact ih hrest (noFull_emitOn hstep hfull)

/-- A read from a buffer with no `Full` record fails only on an illegal sequence. -/
theorem readLoop_error {records : List Record} {buffered : Buffer} {e : ReadError}
    (h : readLoop records buffered = .error e)
    (hfull : ∀ regionId, NoFull (buffered.lookup regionId)) :
    ∃ lastType incoming, e = .illegalSequence lastType incoming := by
  induction records generalizing buffered with
  | nil => cases h
  | cons record records ih =>
    rcases Except.bind_eq_error.mp h with hstep | ⟨⟨entry, mid⟩, hstep, h⟩
    · exact illegalSequence_of_emitOn (emitOn_of_maybeEmitEntry_error hstep) (hfull _)
    · rcases Except.bind_eq_error.mp h with hrest | ⟨_, -, hpure⟩
      · refine ih hrest fun regionId => ?_
        by_cases hregion : regionId = record.regionId
        · subst hregion
          exact noFull_emitOn (emitOn_of_maybeEmitEntry hstep) (hfull _)
        · rw [maybeEmitEntry_lookup_ne hstep hregion]
          exact hfull regionId
      · cases hpure

/-- `read` fails only on an illegal sequence: the `unreachable!` is never reached. -/
theorem read_error {records : List Record} {e : ReadError} (h : read records = .error e) :
    ∃ lastType incoming, e = .illegalSequence lastType incoming := by
  have hempty : ∀ regionId, NoFull ((∅ : Buffer).lookup regionId) := by
    simp [NoFull, AList.lookup_empty]
  rcases Except.bind_eq_error.mp h with hloop | ⟨⟨entries, buffered⟩, hloop, h⟩
  · exact readLoop_error hloop hempty
  · have hfull : ∀ regionId, NoFull (buffered.lookup regionId) := fun regionId =>
      noFull_slotLoop (readLoop_filter regionId hloop) (hempty regionId)
    have hconvert : ∀ entry ∈ buffered.entries,
        ∃ e, convertToMultipleEntry entry.1 entry.2 = .ok e := by
      intro entry hentry
      have hlookup : buffered.lookup entry.1 = some entry.2 :=
        List.mem_dlookup buffered.nodupKeys hentry
      apply convertToMultipleEntry_ok
      intro x hx
      have := hfull entry.1
      rw [hlookup] at this
      exact this x hx
    obtain ⟨rest, hrest⟩ := Except.exists_mapM_eq_ok hconvert
    rcases Except.bind_eq_error.mp h with hremaining | ⟨_, -, hpure⟩
    · simp [remainingEntries, hrest] at hremaining
    · cases hpure

/-! ## Reads -/

lemma remainingEntries_of_lookup_none {buffered : Buffer}
    (h : ∀ regionId, buffered.lookup regionId = none) : remainingEntries buffered = .ok [] := by
  have hnil : buffered.entries = [] := by
    apply List.eq_nil_iff_forall_not_mem.mpr
    intro entry hentry
    have hlookup : buffered.lookup entry.1 = some entry.2 :=
      List.mem_dlookup buffered.nodupKeys hentry
    rw [h] at hlookup
    cases hlookup
  simp [remainingEntries, hnil, pure, Except.pure]

/-- Every record's data ends up in exactly one entry of its region, in order within each
region up to the flush of its unfinished entries. -/
theorem perm_read {records : List Record} {entries : List Entry}
    (h : read records = .ok entries) (regionId : ℕ) :
    ((entries.filter (·.regionId = regionId)).flatMap Entry.parts).Perm
      ((records.filter (·.regionId = regionId)).map (·.data)) := by
  obtain ⟨⟨emitted, buffered⟩, hloop, h⟩ := Except.bind_eq_ok.mp h
  obtain ⟨rest, hrest, h⟩ := Except.bind_eq_ok.mp h
  cases h
  have hslot := perm_slotLoop (readLoop_filter regionId hloop)
  rw [← remainingEntries_filter regionId hrest] at hslot
  simpa [List.filter_append, AList.lookup_empty] using hslot

/-- The writes of every region, interleaved in any order that keeps each region's own, are
read back as the entries the writer built for them. -/
theorem read_writes {maxDataSize : ℕ} (hmax : 0 < maxDataSize)
    {writes : List (ℕ × List UInt8)} {records : List Record}
    (hinterleave : ∀ regionId, records.filter (·.regionId = regionId) =
      (writes.filter (·.1 = regionId)).flatMap fun write =>
        convertToKafkaRecords (buildEntry write.2 write.1 maxDataSize)) :
    ∃ entries, read records = .ok entries ∧ ∀ regionId,
      entries.filter (·.regionId = regionId) =
        (writes.filter (·.1 = regionId)).map fun write =>
          buildEntry write.2 write.1 maxDataSize := by
  have hslot : ∀ regionId, slotLoop (records.filter (·.regionId = regionId))
      ((∅ : Buffer).lookup regionId) = .ok ((writes.filter (·.1 = regionId)).map
        fun write => buildEntry write.2 write.1 maxDataSize, none) := by
    intro regionId
    rw [hinterleave, AList.lookup_empty]
    apply slotLoop_writes hmax
    intro write hwrite
    simpa using (List.mem_filter.mp hwrite).2
  obtain ⟨⟨entries, buffered⟩, hloop⟩ := readLoop_ok fun regionId => ⟨_, hslot regionId⟩
  have hregion : ∀ regionId, entries.filter (·.regionId = regionId) =
      (writes.filter (·.1 = regionId)).map
        (fun write => buildEntry write.2 write.1 maxDataSize) ∧
      buffered.lookup regionId = none := by
    intro regionId
    have := (readLoop_filter regionId hloop).symm.trans (hslot regionId)
    simpa using this
  have hrest := remainingEntries_of_lookup_none fun regionId => (hregion regionId).2
  refine ⟨entries, ?_, fun regionId => (hregion regionId).1⟩
  simp [read, hloop, hrest, bind, Except.bind, pure, Except.pure]

theorem read_reassembles_writes {maxDataSize : ℕ} (hmax : 0 < maxDataSize) :
    (∀ (writes : List (ℕ × List UInt8)) (records : List Record),
      (∀ regionId, records.filter (·.regionId = regionId) =
        (writes.filter (·.1 = regionId)).flatMap fun write =>
          convertToKafkaRecords (buildEntry write.2 write.1 maxDataSize)) →
      ∃ entries, read records = .ok entries ∧ ∀ regionId,
        entries.filter (·.regionId = regionId) =
          (writes.filter (·.1 = regionId)).map
            (fun write => buildEntry write.2 write.1 maxDataSize) ∧
        (entries.filter (·.regionId = regionId)).map (·.parts.flatten) =
          (writes.filter (·.1 = regionId)).map (·.2)) ∧
    ∀ records : List Record,
      (∃ lastType incoming, read records = .error (.illegalSequence lastType incoming)) ∨
      ∃ entries, read records = .ok entries ∧ ∀ regionId,
        ((entries.filter (·.regionId = regionId)).flatMap Entry.parts).Perm
          ((records.filter (·.regionId = regionId)).map (·.data)) := by
  constructor
  · intro writes records hinterleave
    obtain ⟨entries, hread, hentries⟩ := read_writes hmax hinterleave
    refine ⟨entries, hread, fun regionId => ⟨hentries regionId, ?_⟩⟩
    rw [hentries regionId, List.map_map]
    exact List.map_congr_left fun write _ => flatten_parts_buildEntry hmax write.2 write.1
  · intro records
    cases hread : read records with
    | error e =>
      obtain ⟨lastType, incoming, rfl⟩ := read_error hread
      exact Or.inl ⟨lastType, incoming, rfl⟩
    | ok entries => exact Or.inr ⟨entries, rfl, perm_read hread⟩

theorem read_reassembles_writes_twoBytes :
    0 < 2 ∧
    (∀ (writes : List (ℕ × List UInt8)) (records : List Record),
      (∀ regionId, records.filter (·.regionId = regionId) =
        (writes.filter (·.1 = regionId)).flatMap fun write =>
          convertToKafkaRecords (buildEntry write.2 write.1 2)) →
      ∃ entries, read records = .ok entries ∧ ∀ regionId,
        entries.filter (·.regionId = regionId) =
          (writes.filter (·.1 = regionId)).map (fun write => buildEntry write.2 write.1 2) ∧
        (entries.filter (·.regionId = regionId)).map (·.parts.flatten) =
          (writes.filter (·.1 = regionId)).map (·.2)) ∧
    ∀ records : List Record,
      (∃ lastType incoming, read records = .error (.illegalSequence lastType incoming)) ∨
      ∃ entries, read records = .ok entries ∧ ∀ regionId,
        ((entries.filter (·.regionId = regionId)).flatMap Entry.parts).Perm
          ((records.filter (·.regionId = regionId)).map (·.data)) :=
  ⟨by decide, read_reassembles_writes (by decide)⟩

/-- A stream that starts an entry and continues it with the wrong sequence number is refused:
the data of its records ends up in no entry. -/
theorem read_first_middle_two_fails :
    read [⟨.first, 1, [1]⟩, ⟨.middle 2, 1, [2]⟩] = .error (.illegalSequence .first (.middle 2)) :=
  rfl

end Kafka

end Greptime
