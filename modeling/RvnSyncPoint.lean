import RvnSyncPoint.Sync.Reload
import RvnSyncPoint.Sync.Sound
import RvnSyncPoint.Sync.Stops
import RvnSyncPoint.Sync.Decode
import RvnSyncPoint.Sync.Groups
import RvnSyncPoint.Sync.Own
import RvnSyncPoint.Sync.Stream
import RvnSyncPoint.Sync.Checkpoint
import RvnSyncPoint.Hardware.Access
import RvnSyncPoint.Multimap
import RvnSyncPoint.Hardware.File
import RvnSyncPoint.Hardware.Reorder
import RvnSyncPoint.Hardware.Checkpoint
import RvnSyncPoint.Sync.Closed
import RvnSyncPoint.Sync.Opened
import RvnSyncPoint.Sync.Scan
import RvnSyncPoint.Sync.Terminates
import RvnSyncPoint.Sync.Blocks
import RvnSyncPoint.Sync.History
import RvnSyncPoint.Sync.RecordV2
import RvnSyncPoint.Sync.Formats
import RvnSyncPoint.Sync.Interrupts
import RvnSyncPoint.Sync.Merge
import RvnSyncPoint.Sync.GoesBack
import RvnSyncPoint.Io.Truncated
import RvnSyncPoint.Sync.Count
import RvnSyncPoint.Sync.DataLoop
import RvnSyncPoint.Sync.Stride
import RvnSyncPoint.Sync.Sane
import RvnSyncPoint.Sync.Grammar
import RvnSyncPoint.Sync.Malformed
import RvnSyncPoint.Sync.Stray
import RvnSyncPoint.Hardware.Iterate
import RvnSyncPoint.Hardware.Dump
import RvnSyncPoint.Sync.LastValid
import RvnSyncPoint.Sync.Behind
import RvnSyncPoint.Sync.FromEnd
import RvnSyncPoint.Printing
import RvnSyncPoint.Ostream
import RvnSyncPoint.ErrorText
import RvnSyncPoint.Refinement
import RvnSyncPoint.Sync.PointText
import RvnSyncPoint.Sync.DumpPoints
import RvnSyncPoint.Sync.EventText
import RvnSyncPoint.Sync.DumpEvents
import RvnSyncPoint.Sync.DumpData
import RvnSyncPoint.Sync.Player
import RvnSyncPoint.Sync.Plays
import RvnSyncPoint.Sync.PlayEvents
import RvnSyncPoint.Sync.PlayRuns
import RvnSyncPoint.Sync.WriteLog
import RvnSyncPoint.Sync.Paired
import RvnSyncPoint.Sync.PlayFormats
import RvnSyncPoint.Sync.Anchored
import RvnSyncPoint.Hardware.AccessText
import RvnSyncPoint.Hardware.DumpText
import RvnSyncPoint.Readers
import RvnSyncPoint.Hardware.Readers
import RvnSyncPoint.Io.DeviceText
import RvnSyncPoint.Io.Dump
