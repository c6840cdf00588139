import AisStore.TimeOrder
import AisStore.Iterator
import AisStore.Interval
import AisStore.FetchSize
import AisStore.Cell10
import AisStore.Stats
import AisStore.AreaPartition
import AisStore.Freshness
import AisStore.Agreement
import AisStore.Redelivery
import AisStore.ArrivalOrder
import AisStore.AllOrNothing
import AisStore.Rejected
import AisStore.Resume
import AisStore.Checkpoint
import AisStore.Archiver
import AisStore.Isolation
import AisStore.CompleteFiles
import AisStore.RestoreFile
import AisStore.Completion
import AisStore.FileDiff
import AisStore.CleanUp
import AisStore.Outcome
import AisStore.Lib.JsNumber
import AisStore.Position
import AisStore.OnlyPositions
import AisStore.Lib.PercentEncoding
import AisStore.DownloadUrl
import AisStore.Lib.Substring
import AisStore.AreaRestriction
import AisStore.FileExtension
import AisStore.QueryRoundTrip
import AisStore.ImportService
import AisStore.BackupsKept
import AisStore.LiveTraffic
import AisStore.ImportShutdown
import AisStore.FileImport
import AisStore.Cancel
import AisStore.Pieces
import AisStore.Archive
import AisStore.BulkStore
import AisStore.Reimport
import AisStore.PastTrack
import AisStore.Pool
import AisStore.ExportFolder
import AisStore.Repair
import AisStore.Redundancy
import AisStore.BackupsRestored
