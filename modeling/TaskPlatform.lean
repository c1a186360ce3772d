import TaskPlatform.Library.Program
import TaskPlatform.Library.Interleave
import TaskPlatform.Library.Serial
import TaskPlatform.Library.Faults
import TaskPlatform.Library.Lift
import TaskPlatform.Library.Observe
import TaskPlatform.Library.Contract
import TaskPlatform.Library.Shown
import TaskPlatform.Library.Kept
import TaskPlatform.Library.Log
import TaskPlatform.Library.Latch
import TaskPlatform.Library.Draws
import TaskPlatform.Library.Clock
import TaskPlatform.Library.Trace
import TaskPlatform.Library.Account
import TaskPlatform.Library.Table
import TaskPlatform.Library.Keyset
import TaskPlatform.Library.Recursive
import TaskPlatform.Library.Links
import TaskPlatform.Library.Calendar
import TaskPlatform.Library.Base64
import TaskPlatform.Library.Text
import TaskPlatform.Library.Words
import TaskPlatform.Basic
import TaskPlatform.Pagination.Cursor
import TaskPlatform.Statements
import TaskPlatform.Auth.RefreshTokenService
import TaskPlatform.Auth.Tokens
import TaskPlatform.Auth.Flow
import TaskPlatform.Auth.InFlight
import TaskPlatform.Auth.Rotation
import TaskPlatform.Auth.Reuse
import TaskPlatform.Auth.Sessions
import TaskPlatform.Auth.AuthService
import TaskPlatform.Auth.Refresh
import TaskPlatform.Auth.Accounts
import TaskPlatform.Auth.Credentials
import TaskPlatform.Auth.Provenance
import TaskPlatform.Auth.Signup
import TaskPlatform.Workspaces.WorkspacesService
import TaskPlatform.Workspaces.Flow
import TaskPlatform.Workspaces.Members
import TaskPlatform.Workspaces.Staleness
import TaskPlatform.Workspaces.Bounds
import TaskPlatform.Workspaces.Removal
import TaskPlatform.Access.Slugify
import TaskPlatform.Access.Database
import TaskPlatform.Access.Services
import TaskPlatform.Access.Decisions
import TaskPlatform.Access.Serving
import TaskPlatform.Access.Invitations
import TaskPlatform.Access.Provenance
import TaskPlatform.Access.Owners
import TaskPlatform.Board.Entities
import TaskPlatform.Board.Database
import TaskPlatform.Board.TasksService
import TaskPlatform.Board.CommentsService
import TaskPlatform.Board.Writes
import TaskPlatform.Board.Integrity
import TaskPlatform.Board.Forest
import TaskPlatform.Board.Knowledge
import TaskPlatform.Board.Contracts
import TaskPlatform.Board.CommentRemoval
import TaskPlatform.Board.Tenancy
import TaskPlatform.Board.Isolation
import TaskPlatform.Board.Requests
import TaskPlatform.Board.Depth
import TaskPlatform.Board.Events
import TaskPlatform.Board.Outcomes
import TaskPlatform.Board.Trail
import TaskPlatform.Board.Completion
import TaskPlatform.Board.Stream
import TaskPlatform.Board.Trees
import TaskPlatform.Board.Moves
import TaskPlatform.Board.Subtrees
import TaskPlatform.Board.TaskRemoval
import TaskPlatform.Board.Permissions
import TaskPlatform.Board.Finality
import TaskPlatform.Board.LostUpdates
import TaskPlatform.Board.Footprints
import TaskPlatform.Board.History
import TaskPlatform.Board.Identities
import TaskPlatform.Board.AuditTrail
import TaskPlatform.Board.Reads
import TaskPlatform.Board.Removals
import TaskPlatform.Notifications.NotificationsService
import TaskPlatform.Notifications.Listeners
import TaskPlatform.Notifications.Processor
import TaskPlatform.Notifications.Inbox
import TaskPlatform.Notifications.InFlight
import TaskPlatform.Pagination.Walk
import TaskPlatform.Pagination.Lists
import TaskPlatform.Pagination.Order
import TaskPlatform.Pagination.CursorErrors
import TaskPlatform.Realtime.Cluster
import TaskPlatform.Realtime.Delivery
import TaskPlatform.Reminders.Database
import TaskPlatform.Reminders.RemindersService
import TaskPlatform.Reminders.Writes
import TaskPlatform.Reminders.Scans
import TaskPlatform.Reminders.Dispatch
import TaskPlatform.Reminders.Windows
import TaskPlatform.Reminders.Knowledge
import TaskPlatform.Reminders.Statuses
import TaskPlatform.Reminders.TaskRemoval
import TaskPlatform.Reminders.Serving
import TaskPlatform.Reminders.Modes
import TaskPlatform.Reminders.ScanResults
import TaskPlatform.Reminders.Assignees
import TaskPlatform.Reminders.Grounds
import TaskPlatform.Reminders.Recovery
import TaskPlatform.Reminders.Deliveries
import TaskPlatform.Reminders.SchedulerService
import TaskPlatform.Platform.Database
import TaskPlatform.Platform.Services
import TaskPlatform.Platform.Knowledge
import TaskPlatform.Platform.Fitting
import TaskPlatform.Platform.Contracts
import TaskPlatform.Platform.Recipients
import TaskPlatform.Platform.Grants
import TaskPlatform.Platform.Admission
import TaskPlatform.Platform.Tenants
import TaskPlatform.Platform.Authority
import TaskPlatform.Platform.Visibility
import TaskPlatform.Platform.Deletions
