import ScheduledDb.Api.CancelFuncs
import ScheduledDb.Api.Forwarding
import ScheduledDb.Api.HiddenAddresses
import ScheduledDb.Api.LastDate
import ScheduledDb.Api.Race
import ScheduledDb.Api.Recording
import ScheduledDb.Api.Resubmission
import ScheduledDb.App.Leadership
import ScheduledDb.App.Lifecycle
import ScheduledDb.App.MemoryLimit
import ScheduledDb.App.Recovery
import ScheduledDb.Simulator.Ticks
import ScheduledDb.Simulator.Totals
import ScheduledDb.Slots.Crashes
import ScheduledDb.Slots.FailedWrites
import ScheduledDb.Slots.OncePerPass
import ScheduledDb.Slots.Orphans
import ScheduledDb.Slots.SlotBounds
import ScheduledDb.Slots.Stranding
import ScheduledDb.Store.ColdStore
import ScheduledDb.Store.CompletedAt
import ScheduledDb.Store.Pruning
import ScheduledDb.Store.SlotLookup
