import Wayfinder.Binary.Unpack
import Wayfinder.Binary.Remainder
import Wayfinder.Binary.Order
import Wayfinder.Decimal.Shortest
import Wayfinder.Decimal.Fixed
import Wayfinder.Decimal.Layout
import Wayfinder.Geo.Point
import Wayfinder.Geo.Box
import Wayfinder.Hash.Slots
import Wayfinder.Search.Heap
import Wayfinder.Spatial.Select
import Wayfinder.Spatial.Tree
import Wayfinder.Spatial.Query
import Wayfinder.Text.Escaped
import Wayfinder.Ids
import Wayfinder.Mode
import Wayfinder.Outcome
import Wayfinder.Route.Assemble
import Wayfinder.Settings
import Wayfinder.Binary.FromDecimal
import Wayfinder.Cache.Lru
import Wayfinder.Decimal.Read
import Wayfinder.Road.Class
import Wayfinder.Road.Error
import Wayfinder.Road.Feature
import Wayfinder.Road.Speed
import Wayfinder.Road.Store
import Wayfinder.Road.Table
import Wayfinder.Road.Graph.Basic
import Wayfinder.Road.Graph.Path
import Wayfinder.Road.Graph.Snap
import Wayfinder.Road.Graph.Turns
import Wayfinder.Index.Contractor
import Wayfinder.Router.Error
import Wayfinder.Router.Monitor
import Wayfinder.Index.Basic
import Wayfinder.Index.Border
import Wayfinder.Index.Query
import Wayfinder.Index.Snap
import Wayfinder.Region.Boxes
import Wayfinder.Region.Catalog
import Wayfinder.Router.Absent
import Wayfinder.Router.Plan
import Wayfinder.Router.Vehicle
import Wayfinder.Router.Select
import Wayfinder.Router.Walk
import Wayfinder.Follow.Deviation
import Wayfinder.Follow.Fix
import Wayfinder.Follow.Matcher
import Wayfinder.Session.Basic
import Wayfinder.Session.Build
import Wayfinder.Session.Follow
import Wayfinder.Session.Inbox
import Wayfinder.Demo.Network
import Wayfinder.Demo.Script
import Wayfinder.Main
import Wayfinder.Proofs.Session.Run
import Wayfinder.Proofs.Session.Invariant
import Wayfinder.Proofs.Session.Stale
import Wayfinder.Proofs.Cache.Links
import Wayfinder.Proofs.Cache.Recency
import Wayfinder.Proofs.Cache.Serve
import Wayfinder.Proofs.Session.Active
import Wayfinder.Proofs.Session.Refusal
import Wayfinder.Proofs.Road.Lookup
import Wayfinder.Proofs.Road.Transparent
import Wayfinder.Proofs.Index.Arcs
import Wayfinder.Proofs.Index.Contraction
import Wayfinder.Proofs.Index.Layout
import Wayfinder.Proofs.Index.Search
import Wayfinder.Proofs.Index.Answer
import Wayfinder.Proofs.Router.Drive
import Wayfinder.Proofs.Geo.Near
import Wayfinder.Proofs.Road.Duality
import Wayfinder.Proofs.Router.Walk
import Wayfinder.Proofs.Router.Feasible
import Wayfinder.Proofs.Session.Rebuild
import Wayfinder.Proofs.Index.Interning
import Wayfinder.Proofs.Router.Polling
import Wayfinder.Proofs.Spatial.Load
import Wayfinder.Proofs.Index.Border
import Wayfinder.Proofs.Router.Absent
import Wayfinder.Proofs.Session.Classify
import Wayfinder.Proofs.Road.Points
import Wayfinder.Proofs.Hash.Slots
import Wayfinder.Proofs.Road.Store
import Wayfinder.Proofs.Index.Distance
import Wayfinder.Proofs.Index.Mirror
import Wayfinder.Proofs.Numeric.Binary32
import Wayfinder.Proofs.Router.Progress
import Wayfinder.Proofs.Index.LinkLookup
