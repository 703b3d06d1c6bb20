import EbpfToy.Lib.Machine
import EbpfToy.Lib.Timeline
import EbpfToy.Lib.Serial
import EbpfToy.Theorems.Pairing
import EbpfToy.Theorems.Ledger
import EbpfToy.Theorems.EndToEnd
import EbpfToy.Theorems.RunQueue
import EbpfToy.Theorems.NestedFaults
import EbpfToy.Theorems.Lifecycle
import EbpfToy.Theorems.Interleaving
import EbpfToy.Theorems.LiveRead
import EbpfToy.Lib.PerKey
import EbpfToy.Theorems.KeysApart
import EbpfToy.Theorems.Attachment
import EbpfToy.Lib.Text
import EbpfToy.Go.Paths
import EbpfToy.Theorems.OutputPaths
import EbpfToy.Go.Save
import EbpfToy.Theorems.FailedReads
import EbpfToy.Theorems.FailedWrites
import EbpfToy.Lib.Buckets
import EbpfToy.Theorems.Summary
import EbpfToy.Theorems.BucketLoops
import EbpfToy.Theorems.Labels
import EbpfToy.Theorems.CsvRoundTrip
import EbpfToy.Lib.Capacity
import EbpfToy.Theorems.Capacity
import EbpfToy.Theorems.SharedHistogram
import EbpfToy.Lib.Overlap
import EbpfToy.Go.Session
import EbpfToy.Theorems.Session
import EbpfToy.Theorems.Waits
import EbpfToy.Lib.Handlers
import EbpfToy.Theorems.Clocks
import EbpfToy.Lib.Json
import EbpfToy.Lib.Utf8
import EbpfToy.Theorems.Lifetimes
import EbpfToy.Theorems.WholeLines
import EbpfToy.Go.Summary
import EbpfToy.Theorems.SavedFiles
import EbpfToy.Theorems.OnDisk
import EbpfToy.Go.Table
import EbpfToy.Theorems.Tables
import EbpfToy.Lib.Shell
import EbpfToy.Scripts.CollectAll
import EbpfToy.Theorems.Collections
import EbpfToy.Lib.Readings
import EbpfToy.Lib.Coarse
import EbpfToy.Theorems.CpuClocks
import EbpfToy.Theorems.AddUp
import EbpfToy.Theorems.OverlappingRuns
