import Marginalis.NoteStages
import Marginalis.Run
import Marginalis.NoLostUpdate
import Marginalis.Principals
import Marginalis.Projection
import Marginalis.ProjectionLog
import Marginalis.Attachments
import Marginalis.PurgeNotes
import Marginalis.Cleanup
import Marginalis.Sync
import Marginalis.SyncConvergence
import Marginalis.SyncRuns
import Marginalis.TokenFamily
import Marginalis.ScopeCeiling
import Marginalis.Outbox
import Marginalis.DeliveryBudget
import Marginalis.NoteQueries
import Marginalis.NoteGraph
import Marginalis.ReviewStatus
import Marginalis.Noninterference
import Marginalis.Bibliography
import Marginalis.BibliographyImport
import Marginalis.BibliographyImportStore
import Marginalis.ImportPlan
import Marginalis.TimedLog
import Marginalis.ChangeTimes
import Marginalis.ImportApply
import Marginalis.ImportState
import Marginalis.LibraryInvariant
import Marginalis.ImportBaselines
import Marginalis.ImportRepeats
import Marginalis.StateToken
import Marginalis.ImportOutcome
import Marginalis.ClientCeilings
import Marginalis.IdentityMaintenance
import Marginalis.Sessions
import Marginalis.NoteClock
import Marginalis.NotePatch
import Marginalis.PatchGrammar
import Marginalis.PatchFrame
import Marginalis.PatchComplete
import Marginalis.LibraryRequests
import Marginalis.NoteApplication
import Marginalis.PatchUpdate
import Marginalis.AclReplacement
import Marginalis.Framing
import Marginalis.Uuid
import Marginalis.TokenBytes
import Marginalis.CommonSublist
import Marginalis.EditorConflict
import Marginalis.AsciiCodes
import Marginalis.MathMacros
import Marginalis.MathMacroState
import Marginalis.MacroAgreement
import Marginalis.MacroConfinement
import Marginalis.AddressBlocks
import Marginalis.WebhookDestination
import Marginalis.Citations
import Marginalis.TextSearch
import Marginalis.Snapshot
import Marginalis.DocumentExport
import Marginalis.BreadthFirst
import Marginalis.GraphNeighbourhood
import Marginalis.RegistrationLimiter
import Marginalis.NoteStateHash
import Marginalis.Archive
import Marginalis.TextPosition
import Marginalis.NoteOutline
import Marginalis.SoftDeleteDeadlines
import Marginalis.BlankTokens
import Marginalis.ConsentForm
import Marginalis.ConsentEndpoint
import Marginalis.ConsentBinding
import Marginalis.McpHeaders
import Marginalis.McpProtocol
import Marginalis.McpTransport
import Marginalis.McpEnvelope
import Marginalis.NoteHistory
import Marginalis.MathMacroStore
import Marginalis.ServiceSound
import Marginalis.SnapshotExport
import Marginalis.EachAfter
import Marginalis.SnapshotParts
import Marginalis.SnapshotRestore
import Marginalis.RestoreRoundTrip
import Marginalis.BackupRestore
import Marginalis.ArchiveRecords
import Marginalis.ArchiveReader
import Marginalis.SnapshotRestatement
import Marginalis.ArchiveRoundTrip
import Marginalis.ArchiveVerification
import Marginalis.ArchiveMigration
import Marginalis.RowWrites
import Marginalis.RestoredDatabase
