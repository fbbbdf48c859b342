import ProjectCache.Lib.Text
import ProjectCache.Lib.Lines
import ProjectCache.Lib.Rfc4648
import ProjectCache.Lib.Calendar
import ProjectCache.Lib.Table
import ProjectCache.Lib.Program
import ProjectCache.Lib.Pool
import ProjectCache.Lib.Rely
import ProjectCache.Lib.Closure
import ProjectCache.Lib.Pieces
import ProjectCache.Lib.Discipline
import ProjectCache.Lib.Extension
import ProjectCache.Lib.Transaction
import ProjectCache.Lib.FilePath
import ProjectCache.Core.Nix
import ProjectCache.Core.Base32
import ProjectCache.Core.Project
import ProjectCache.Core.Auth
import ProjectCache.Core.DepotPath
import ProjectCache.Core.NarInfo
import ProjectCache.Core.Validation
import ProjectCache.Core.StoreEntries
import ProjectCache.Core.Signing
import ProjectCache.Core.KeyCrypto
import ProjectCache.Core.RoundTrip
import ProjectCache.Core.Canonical
import ProjectCache.Core.LineOrder
import ProjectCache.Core.Printed
import ProjectCache.Core.Fingerprint
import ProjectCache.Store.ObjectPath
import ProjectCache.Store.Backend
import ProjectCache.Store.Multipart
import ProjectCache.Store.Parts
import ProjectCache.Store.Uploaders
import ProjectCache.Lib.FileSystem
import ProjectCache.Store.Filesystem
import ProjectCache.Store.Holding
import ProjectCache.Store.AtomicWrites
import ProjectCache.Db.Schema
import ProjectCache.Depot.Calls
import ProjectCache.Db.Projects
import ProjectCache.Db.Upstreams
import ProjectCache.Db.Builds
import ProjectCache.Db.Paths
import ProjectCache.Db.Objects
import ProjectCache.Db.Pins
import ProjectCache.Db.Retention
import ProjectCache.Db.RetentionTransaction
import ProjectCache.Db.Gc
import ProjectCache.Db.AccessTokens
import ProjectCache.Db.Identities
import ProjectCache.Db.SigningKeys
import ProjectCache.Db.PathTables
import ProjectCache.Ingest.Planner
import ProjectCache.Ingest.Service
import ProjectCache.Ingest.Gc
import ProjectCache.Depot.Machine
import ProjectCache.Depot.Frame
import ProjectCache.Depot.Growth
import ProjectCache.Depot.Rules
import ProjectCache.Depot.Server
import ProjectCache.Depot.Permitted
import ProjectCache.Depot.Publication
import ProjectCache.Depot.Runs
import ProjectCache.Depot.Sequence
import ProjectCache.Ingest.Rules
import ProjectCache.Ingest.Multipart
import ProjectCache.Ingest.Plan
import ProjectCache.Read.LocalObjects
import ProjectCache.Read.Lookup
import ProjectCache.Read.Service
import ProjectCache.Publish.ClientNarinfo
import ProjectCache.Publish.Once
import ProjectCache.Publish.Frozen
import ProjectCache.Publish.Uploads
import ProjectCache.Publish.UploadFrame
import ProjectCache.Publish.Publisher
import ProjectCache.Publish.WriteOnce
import ProjectCache.Access.TokenExpiry
import ProjectCache.Access.SigningKeys
import ProjectCache.Access.Authz
import ProjectCache.Access.Api
import ProjectCache.Access.Permitted
import ProjectCache.Access.Confinement
import ProjectCache.Access.Scope
import ProjectCache.Access.Restrictions
import ProjectCache.Access.KeyNames
import ProjectCache.Access.EnsuredKeys
import ProjectCache.Access.RestrictedOidc
import ProjectCache.Access.SealedKeys
import ProjectCache.Access.Oidc
import ProjectCache.Access.OidcTrust
import ProjectCache.Access.OidcCache
import ProjectCache.Publish.Registration
import ProjectCache.Read.Isolation
import ProjectCache.Read.ContentLength
import ProjectCache.Read.Vouching
import ProjectCache.Read.Announced
import ProjectCache.Read.Handlers
import ProjectCache.Read.Answering
import ProjectCache.Gc.Roots
import ProjectCache.Gc.Recency
import ProjectCache.Gc.Sweep
import ProjectCache.Gc.Safety
import ProjectCache.Gc.Stored
import ProjectCache.Gc.Interrupted
import ProjectCache.Gc.Pins
import ProjectCache.Gc.Tombstones
import ProjectCache.Gc.Collecting
import ProjectCache.Gc.Grace
import ProjectCache.Gc.Policies
import ProjectCache.Gc.Gathered
import ProjectCache.Gc.LivePaths
import ProjectCache.Gc.Retained
import ProjectCache.Publish.Served
import ProjectCache.Publish.Untouched
import ProjectCache.Gc.Concurrent
import ProjectCache.Publish.Answered
import ProjectCache.Publish.Completed
import ProjectCache.Ctl.Durations
