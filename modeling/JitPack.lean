import JitPack.Sync.Generator
import JitPack.Sync.Clocks
import JitPack.Store.Dominance
import JitPack.Store.PackRecord
import JitPack.Store.Feed
import JitPack.Store.Inclusion
import JitPack.Store.Ownership
import JitPack.Store.Isolation
import JitPack.Store.Revert
import JitPack.Client.RouteEditor
import JitPack.Client.Companions
import JitPack.Client.Expansion
import JitPack.Client.Shuffle
import JitPack.Client.Restore
import JitPack.Client.ItemMerge
import JitPack.Client.ImportPlan
import JitPack.Client.ExcursionGroup
import JitPack.Client.Suitcase
import JitPack.Client.PackingClose
import JitPack.Client.RowRemoval
import JitPack.Client.Review
import JitPack.Client.Cascade
import JitPack.Client.Codecs
import JitPack.Client.Membership
import JitPack.Client.TaskDue
import JitPack.Api.Hub
import JitPack.Api.Presence
import JitPack.Api.Push
import JitPack.Notify.Reminders
import JitPack.Notify.Rules
import JitPack.Client.TaskBoard
import JitPack.Lib.Lines
import JitPack.Client.TripTemplate
import JitPack.Lib.Neighbours
import JitPack.Client.DayPlan
import JitPack.Client.Polyline
import JitPack.Client.Ingredients
import JitPack.Lib.Occurrences
import JitPack.Notify.Mentions
import JitPack.Lib.Regex
import JitPack.Client.Numeral
import JitPack.Client.Gpx
import JitPack.Client.GpxFile
import JitPack.Client.Amounts
import JitPack.Client.AmountTotals
import JitPack.Client.AmountSplit
import JitPack.Client.Outbox
import JitPack.Client.OutboxRun
import JitPack.Client.OutboxSession
import JitPack.Client.OutboxOrder
import JitPack.Client.Delivery
import JitPack.Lib.Changefeed
import JitPack.Store.Announced
import JitPack.Store.Pull
