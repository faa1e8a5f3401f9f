import Kurul.Sql.Run
import Kurul.Sql.RelyGuarantee
import Kurul.Sql.References
import Kurul.Sql.Footprint
import Kurul.Order.SortBy
import Kurul.Json
import Kurul.Runtime
import Kurul.Db.Schema
import Kurul.Db.Prisma
import Kurul.Db.Scope
import Kurul.Position.FractionalIndex
import Kurul.Position.ApplyInsertion
import Kurul.Position.RebalanceSql
import Kurul.Position.Placement
import Kurul.Position.Spread
import Kurul.Activity
import Kurul.Sql.Ledger
import Kurul.Db.Kept
import Kurul.Task.TaskDto
import Kurul.Task.TaskFields
import Kurul.Task.TaskService
import Kurul.Order.Paging
import Kurul.Task.TaskList
import Kurul.Board.ColumnService
import Kurul.Board.BoardService
import Kurul.Task.Placement
import Kurul.Board.Placement
import Kurul.Task.Spacing
import Kurul.Sql.Schedule
import Kurul.Board.ColumnRemoval
import Kurul.Web.TaskDnd
import Kurul.Web.BoardSync
import Kurul.JsMap
import Kurul.Order.Grouping
import Kurul.Import.SkipCollector
import Kurul.Import.TrelloExport
import Kurul.Import.TrelloImportPlanner
import Kurul.Import.PlanParts
import Kurul.Import.Planned
import Kurul.Import.Accounting
import Kurul.Import.TrelloImportService
import Kurul.Import.Writable
import Kurul.Lts
import Kurul.Realtime.RoomState
import Kurul.Realtime.Eviction
import Kurul.Realtime.Tab
import Kurul.Realtime.HeldRooms
import Kurul.Realtime.JoinedFlag
import Kurul.Web.BoardLog
import Kurul.Web.UnreadBadge
import Kurul.Web.BoardView
import Kurul.Web.DistinctRows
import Kurul.Web.ColumnsConverge
import Kurul.Web.Viewer
import Kurul.Web.InSync
import Kurul.Web.Convergence
import Kurul.Web.Resync
import Kurul.Web.Mover
import Kurul.Web.MoverInv
import Kurul.Web.OptimisticMoves
import Kurul.Scan
import Kurul.Comment.Mentions
import Kurul.Comment.MentionSegments
import Kurul.Comment.MentionRedaction
import Kurul.Sql.Ends
import Kurul.Sql.Announce
import Kurul.Task.MoveEvents
import Kurul.Workspace.WorkspaceMember
import Kurul.Workspace.Ownership
import Kurul.Account.AccountDeletion
import Kurul.Account.CommentRedaction
import Kurul.Notification.NotificationService
import Kurul.Task.TaskRead
import Kurul.Task.TaskAssignee
import Kurul.Notification.DueSoon
import Kurul.Workspace.Assigned
import Kurul.Audit.Entries
import Kurul.Audit.Trail
import Kurul.Sql.Owing
import Kurul.Comment.CommentService
import Kurul.Notification.Unread
import Kurul.Notification.Announced
import Kurul.Backup.Rotation
import Kurul.Attachment.CreateFile
import Kurul.Retention.OrphanSweep
import Kurul.Backup.Disown
import Kurul.Workspace.WorkspaceInvitation
import Kurul.Workspace.Reinvite
import Kurul.Web.InvitationQueue
import Kurul.Dashboard.DashboardService
import Kurul.Dashboard.History
import Kurul.Dashboard.BoardSums
import Kurul.Notification.Reminders
import Kurul.Notification.ScanRun
import Kurul.Notification.ScanExact
import Kurul.Sql.Clocked
import Kurul.Notification.ReminderSpacing
import Kurul.Binary64
import Kurul.Import.LabelColors
import Kurul.Comment.MentionMarkup
import Kurul.Retention.SweepSettings
import Kurul.Task.Checklists
import Kurul.Task.ChecklistGaps
import Kurul.Task.ChecklistRaces
import Kurul.Task.MoveAnswers
import Kurul.Dashboard.Charts
import Kurul.Import.PlanRows
import Kurul.Import.Storable
import Kurul.Import.PlanTwice
import Kurul.Import.Shuffled
import Kurul.Import.TrelloOrder
import Kurul.Locale
import Kurul.Board.BoardDefaults
import Kurul.Board.Seeding
import Kurul.Comment.Tokens
import Kurul.Comment.RedactTwice
import Kurul.Utf16
import Kurul.Percent
import Kurul.Attachment.Disposition
import Kurul.PosixPath
import Kurul.Storage.DiskStorageBackend
import Kurul.Storage.Listing
import Kurul.Sql.Purge
import Kurul.Retention.Cleanup
import Kurul.Retention.CleanupRuns
import Kurul.Web.ApiResource
import Kurul.Web.WorkspaceProvider
import Kurul.Web.TaskPanel
import Kurul.Order.GapFree
import Kurul.Web.NotificationsList
import Kurul.Task.TaskQueryWhere
import Kurul.Task.TaskUpdatePlan
import Kurul.Import.SkipReport
import Kurul.Db.Within
import Kurul.Account.DeletionRun
import Kurul.Account.OthersKept
import Kurul.Auth.AuthRateLimit
import Kurul.Web.TaskQuery
import Kurul.Http.AllExceptionsFilter
import Kurul.Mail.MailTemplates
import Kurul.Web.AuthRedirect
import Kurul.RedisUrl
import Kurul.Position.Slots
import Kurul.Scripts.DeployNames
import Kurul.Account.OwnersKept
import Kurul.Sql.Restrict
import Kurul.Sql.Tenancy
import Kurul.Sql.Alongside
import Kurul.Db.Tenants
import Kurul.Board.LabelService
import Kurul.Task.TaskLabel
import Kurul.Attachment.AttachmentService
import Kurul.ActivityFeed
import Kurul.Activation.UsagePing
import Kurul.Http.Routes
import Kurul.Tenancy.Requests
import Kurul.Conduct.Requests
import Kurul.Web.BoardTasks
