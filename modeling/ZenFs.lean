import ZenFs.Alloc.Capacity
import ZenFs.Alloc.Caza
import ZenFs.Alloc.ClosestRank
import ZenFs.Alloc.Deferred
import ZenFs.Alloc.Free
import ZenFs.Alloc.Hotness
import ZenFs.File.DirectRead
import ZenFs.File.Prefix
import ZenFs.File.Progress
import ZenFs.File.Read
import ZenFs.File.SparseRoundTrip
import ZenFs.Fs.Accounts
import ZenFs.Fs.Basic
import ZenFs.Fs.Catalog
import ZenFs.Fs.Isolation
import ZenFs.Fs.Mount
import ZenFs.Fs.Race
import ZenFs.Fs.Replace
import ZenFs.Fs.Run
import ZenFs.Fs.Space
import ZenFs.Gc.Cold
import ZenFs.Gc.Improved
import ZenFs.Gc.Pass
import ZenFs.Gc.Order
import ZenFs.Levels.Entries
import ZenFs.Levels.Exact
import ZenFs.Levels.WellFormed
import ZenFs.Lib.Reach
import ZenFs.Locks.Basic
import ZenFs.Locks.Deadlock
import ZenFs.Meta.Blocks
import ZenFs.Meta.FailedRoll
import ZenFs.Meta.Frame
import ZenFs.Meta.FullZone
import ZenFs.Meta.Newest
import ZenFs.Meta.Reading
import ZenFs.Meta.Snapshot
import ZenFs.Meta.Update
import ZenFs.Names.Agree
import ZenFs.Names.Basic
import ZenFs.Names.DeleteDir
import ZenFs.Names.DirRename
import ZenFs.Names.RandomAccess
import ZenFs.Names.Unlinked
import ZenFs.OpenZones.Errors
import ZenFs.Params.Safe
import ZenFs.Tokens.Conservation
import ZenFs.Tokens.Limits
import ZenFs.Tool.Copy
import ZenFs.Tool.Dump
import ZenFs.Zbd.Backend
import ZenFs.Zbd.FileCache
