import ColonyCore.Persistent.LogFailures
import ColonyCore.Persistent.LogCrash
import ColonyCore.Dm.Persistent.Record
import ColonyCore.Dm.Notifications
import ColonyCore.Dm.Retarget
import ColonyCore.Dm.Persistent.Settling
import ColonyCore.Container.Map
import ColonyCore.Persistent.EntryDelivery
import ColonyCore.System.ElapsedTime2
import ColonyCore.Text.FrameRoundTrip
import ColonyCore.System.PeriodicScheduler
import ColonyCore.Driver.Gang
import ColonyCore.Container.AvlIterate
import ColonyCore.Container.DictionaryBag
import ColonyCore.Itc.MailboxProgress
import ColonyCore.Io.Ram.BlockingFifo
import ColonyCore.Logging.Accounting
import ColonyCore.System.TickProgress
import ColonyCore.Storm.HeatingLadder
import ColonyCore.Persistent.LogClear
import ColonyCore.Persistent.ChunkBounds
import ColonyCore.Persistent.ShortReads
import ColonyCore.Dm.ImportExport
import ColonyCore.Dm.ArrayJson
import ColonyCore.Text.DString
import ColonyCore.Text.TextBlock
import ColonyCore.Storm.Publishing
import ColonyCore.Driver.GangStart
import ColonyCore.Checksum.ErrorDetection
import ColonyCore.Storm.ForcedOff
import ColonyCore.Storm.RelayEdges
import ColonyCore.Storm.ComfortLimits
import ColonyCore.Storm.AirFilter
import ColonyCore.Container.KeyStringBuffer
import ColonyCore.Memory.LeanHeap
import ColonyCore.Math.Integer
import ColonyCore.Persistent.ReportedSuccess
