import GoREgo.Lib.Machine
import GoREgo.Proto
import GoREgo.Lib.Maps
import GoREgo.Scheduler.Model
import GoREgo.Scheduler.Records
import GoREgo.Scheduler.Calls
import GoREgo.Scheduler.LoadAccounting
import GoREgo.Execution.Effects
import GoREgo.Execution.TaskOwnership
import GoREgo.Execution.Terminal
import GoREgo.Execution.LiveWork
import GoREgo.Execution.Subscriptions
import GoREgo.Execution.StreamDone
import GoREgo.Execution.Wakeups
import GoREgo.Execution.CachedReplies
import GoREgo.Execution.StreamNames
import GoREgo.Cluster.Model
import GoREgo.Cluster.Routing
import GoREgo.Cluster.Forwarding
import GoREgo.Cluster.Hops
import GoREgo.Cluster.SingleHop
import GoREgo.Lib.HostPort
import GoREgo.Cluster.Membership
import GoREgo.Cluster.Gossip
import GoREgo.Cluster.Selection
import GoREgo.Cluster.Dialing
import GoREgo.Lib.Pipe
import GoREgo.Storage.Flight
import GoREgo.Storage.Proxy
import GoREgo.Storage.Effects
import GoREgo.Storage.WriteThrough
import GoREgo.Storage.UploadFlow
import GoREgo.Storage.ContentAddressing
import GoREgo.Server.ByteStream
import GoREgo.Lib.Regex
import GoREgo.Server.ResourceNames
import GoREgo.Lib.Panic
import GoREgo.Server.Requests
import GoREgo.Lib.Reader
import GoREgo.Server.Read
import GoREgo.Server.FailingWrite
import GoREgo.Server.FailedUploads
import GoREgo.Server.AnyStore
import GoREgo.Server.DeadReader
import GoREgo.Storage.EarlyRemote
import GoREgo.Storage.ActionCache
import GoREgo.Storage.SharedFlights
import GoREgo.Server.RemoteUpload
import GoREgo.Server.RemotePut
import GoREgo.Server.RemoteDownload
import GoREgo.Server.UploadProtocol
import GoREgo.Lib.FileSystem
import GoREgo.Storage.Disk
import GoREgo.Storage.DiskInvariant
import GoREgo.Storage.WholeFiles
import GoREgo.Janitor.Cleanup
import GoREgo.Janitor.Eviction
import GoREgo.Janitor.Fill
import GoREgo.Janitor.Uploads
import GoREgo.Janitor.Hits
import GoREgo.Lib.Program
import GoREgo.Lib.Paths
import GoREgo.Execution.FileTree
import GoREgo.Execution.Outputs
import GoREgo.Lib.Volume
import GoREgo.Execution.Staging
import GoREgo.Execution.Described
import GoREgo.Execution.RoundTrip
import GoREgo.Execution.Persistent
import GoREgo.Execution.PersistentAnswers
import GoREgo.Execution.PersistentTurns
import GoREgo.Execution.PersistentCrash
import GoREgo.Execution.PersistentShutdown
import GoREgo.Execution.OutputModes
import GoREgo.Janitor.Debounce
import GoREgo.Execution.SelfConsistent
import GoREgo.Lib.Slice
import GoREgo.Scheduler.Subscribers
import GoREgo.Scheduler.LiveRecords
import GoREgo.Sandbox.WrapCommand
import GoREgo.Cluster.Discovery
import GoREgo.Lib.IPAddress
import GoREgo.Execution.Deadline
import GoREgo.Execution.StagingDepth
import GoREgo.Janitor.Removal
import GoREgo.Janitor.Links
import GoREgo.Storage.Names
import GoREgo.Janitor.BusyWalk
import GoREgo.Storage.Contents
import GoREgo.Execution.Framing
import GoREgo.Execution.PersistentOwnership
import GoREgo.Execution.StagedModes
import GoREgo.Execution.SteppedStaging
