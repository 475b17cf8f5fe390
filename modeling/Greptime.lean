import Greptime.Foundations.Runs
import Greptime.Foundations.Pull
import Greptime.Foundations.I64
import Greptime.Foundations.Log
import Greptime.Foundations.Decimal
import Greptime.Foundations.Heap
import Greptime.Foundations.SortedMap
import Greptime.Foundations.Utf8
import Greptime.Foundations.Protobuf
import Greptime.Foundations.Bytes
import Greptime.Foundations.Codec
import Greptime.Foundations.SortedMerge
import Greptime.Foundations.Except
import Greptime.Foundations.Grid
import Greptime.Foundations.Sweep
import Greptime.Foundations.BitBuf
import Greptime.Foundations.Framed
import Greptime.Foundations.Lex
import Greptime.Foundations.Memcmp
import Greptime.Foundations.Grouping
import Greptime.Foundations.Rounding
import Greptime.Foundations.Prost
import Greptime.Foundations.Columns
import Greptime.Foundations.Ledger
import Greptime.Time.Timestamp
import Greptime.Time.Instant
import Greptime.Time.Range
import Greptime.Read.Batch
import Greptime.Read.Dedup
import Greptime.Read.LastNonNull
import Greptime.Read.FlatDedup
import Greptime.Read.Merge
import Greptime.Read.MergeWindow
import Greptime.Memtable.TimeSeries
import Greptime.Compaction.Run
import Greptime.Compaction.Twcs
import Greptime.Compaction.Window
import Greptime.Manifest.Action
import Greptime.Manifest.Store
import Greptime.Manifest.Manager
import Greptime.Manifest.Recovery
import Greptime.Region.WriteCtx
import Greptime.Region.Replay
import Greptime.Flush.Scheduler
import Greptime.Memtable.TimePartition
import Greptime.Index.BloomFilterCreator
import Greptime.Flow.DirtyTimeWindows
import Greptime.Flow.TimeWindow
import Greptime.Servers.PromWrite
import Greptime.Servers.PromWriteEncoding
import Greptime.Servers.PromRowBuilder
import Greptime.Procedure.Store
import Greptime.Procedure.Runner
import Greptime.Partition.MultiDim
import Greptime.Partition.Collider
import Greptime.Partition.Checker
import Greptime.RowConverter.Dense
import Greptime.RowConverter.Memcomparable
import Greptime.RowConverter.KeyOrder
import Greptime.RowConverter.Sparse
import Greptime.LogStore.KafkaRecord
import Greptime.Wal.EntryDistributor
import Greptime.Index.Bitmap
import Greptime.Index.ExternalSort
import Greptime.Index.IntermediateCodec
import Greptime.Index.PredicatesApply
import Greptime.Sst.RowSelection
import Greptime.Sst.BloomFilterPrune
import Greptime.Sst.ParquetFormat
import Greptime.Puffin.File
import Greptime.Puffin.RoundTrip
import Greptime.Puffin.FooterOffsets
import Greptime.Query.TimeRange
import Greptime.Query.RangeSplit
import Greptime.Query.WorkingRange
import Greptime.Query.SortedRuns
import Greptime.Query.WindowSort
import Greptime.Query.WindowSortAscending
import Greptime.Query.WindowSortDescending
import Greptime.Query.PartSort
import Greptime.Read.Range
import Greptime.Meta.Chroot
import Greptime.Promql.RangeManipulate
import Greptime.Promql.ExtrapolateRate
import Greptime.Flush.WriteBuffer
