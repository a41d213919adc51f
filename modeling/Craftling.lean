import Craftling.Agent.FinalSave
import Craftling.Agent.Restore
import Craftling.Control.Hang
import Craftling.Control.Orphans
import Craftling.Control.Reconnect
import Craftling.Auth.Rotation
import Craftling.Image.Publish
import Craftling.Host.Backstop
import Craftling.Host.Processes
import Craftling.Host.Worlds
import Craftling.Control.Backups
import Craftling.Control.Usage
import Craftling.Control.Billing
import Craftling.Api.Players
import Craftling.Dataplane.Strays
import Craftling.Dataplane.Isolation
import Craftling.Dataplane.HostTraffic
import Craftling.Dataplane.Policies
import Craftling.Dataplane.Events
import Craftling.Dataplane.Published
import Craftling.Dataplane.Checksums
import Craftling.Rootfs.Layers
import Craftling.Squashfs.IdLookup
import Craftling.Squashfs.LinkCounts
import Craftling.Squashfs.Rejected
import Craftling.Squashfs.Listings
import Craftling.Squashfs.Numbering
import Craftling.Control.LeastLoaded
import Craftling.Control.Ownership
import Craftling.Control.Replies
import Craftling.Control.Fairness
import Craftling.Dataplane.Allocations
import Craftling.Guest.Environment
import Craftling.Guest.RconFraming
import Craftling.Guest.Ping
import Craftling.Storage.WorldDisks
import Craftling.Agent.FakeRuntime
