import RelayHub.Queue.Ordering
import RelayHub.Queue.Rate
import RelayHub.Queue.Attempts
import RelayHub.Queue.Selection
import RelayHub.Queue.DrainLeases
import RelayHub.Queue.Scheduler
import RelayHub.Queue.ResultCallbacks
import RelayHub.Delivery.Assignments
import RelayHub.Delivery.Terminal
import RelayHub.Delivery.Replays
import RelayHub.Events.Deliverable
import RelayHub.Events.Replay
import RelayHub.Stream.ClientFrames
import RelayHub.Stream.Streamable
import RelayHub.Functions.Dispatch
import RelayHub.Realtime.Isolation
import RelayHub.Realtime.Audience
import RelayHub.Realtime.Grants
import RelayHub.Realtime.Pages
import RelayHub.Realtime.Departures
import RelayHub.Realtime.Registry
import RelayHub.Realtime.Removal
import RelayHub.State.RateLimiter
import RelayHub.Admin.Revocation
import RelayHub.Apps.Updates
import RelayHub.Apps.Credentials
import RelayHub.Catalog.Updates
import RelayHub.Rust.Quota
import RelayHub.Rust.Outbox
import RelayHub.Rust.Queue
import RelayHub.Rust.Publishes
import RelayHub.Rust.Rewind
import RelayHub.Rust.Headers
import RelayHub.Sdk.Heartbeats
