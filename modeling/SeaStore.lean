import SeaStore.Posix.Bytes
import SeaStore.Posix.File
import SeaStore.Posix.Program
import SeaStore.Posix.FileTree
import SeaStore.Posix.Run
import SeaStore.Posix.Interference
import SeaStore.Posix.Confined
import SeaStore.Posix.Elements
import SeaStore.Posix.Text
import SeaStore.Block.Format
import SeaStore.Block.Data
import SeaStore.Block.Index
import SeaStore.Block.SeaBlock
import SeaStore.Block.Image
import SeaStore.Block.Query
import SeaStore.Block.Append
import SeaStore.Block.Create
import SeaStore.Block.ReadBack
import SeaStore.Block.Recreate
import SeaStore.Block.Crash
import SeaStore.Block.Handle
import SeaStore.Block.Failure
import SeaStore.Block.Place
import SeaStore.Block.TwoHandles
import SeaStore.Block.Layout
import SeaStore.Block.Batch
import SeaStore.Block.IndexRun
import SeaStore.Block.IndexQueries
import SeaStore.Block.Update
import SeaStore.Block.Indexed
import SeaStore.Block.OnDisk
import SeaStore.Block.Overwrite
import SeaStore.Block.Leftover
import SeaStore.Block.Cells
import SeaStore.Block.Calls
import SeaStore.Block.Arguments
import SeaStore.Block.Limits
import SeaStore.Block.FrameSize
import SeaStore.Block.OffsetGrowth
import SeaStore.Word.Md5
import SeaStore.Controller.SuperBlock
import SeaStore.Controller.Reopen
import SeaStore.Controller.Controller
import SeaStore.Controller.LocalLog
import SeaStore.Controller.Published
import SeaStore.Controller.Writing
import SeaStore.Controller.Writer
import SeaStore.Controller.Readers
import SeaStore.Controller.Rollover
import SeaStore.Controller.Allocation
import SeaStore.Controller.PhoneList
import SeaStore.Controller.PhoneBounds
import SeaStore.Hash.Flags
import SeaStore.Hash.Probe
import SeaStore.Hash.Khash
import SeaStore.Hash.Slots
import SeaStore.Hash.Table
import SeaStore.Hash.Rehash
import SeaStore.Hash.Resize
import SeaStore.Hash.Put
import SeaStore.Hash.MapRun
import SeaStore.Controller.PhoneTable
import SeaStore.Controller.DhtToken
import SeaStore.Posix.BigEndian
import SeaStore.Dht.NodeId
import SeaStore.Dht.Ranges
import SeaStore.Dht.Nearest
import SeaStore.Dht.Registry
import SeaStore.Dht.State
import SeaStore.Dht.Packet
import SeaStore.Dht.Search
import SeaStore.Dht.Routing
import SeaStore.Dht.Closest
import SeaStore.Dht.Store
import SeaStore.Dht.Message
import SeaStore.Dht.Periodic
import SeaStore.Dht.Shape
import SeaStore.Dht.Quiet
import SeaStore.Dht.Table
import SeaStore.Dht.Split
import SeaStore.Dht.Reinsert
import SeaStore.Dht.NewNode
import SeaStore.Dht.StoreRun
import SeaStore.Dht.MessageBounds
import SeaStore.Dht.StateOk
import SeaStore.Dht.Upkeep
import SeaStore.Dht.Nearby
import SeaStore.Dht.Handled
import SeaStore.Dht.NodeRun
import SeaStore.Dht.Rate
import SeaStore.Dht.Traces
import SeaStore.Dht.Announced
import SeaStore.Dht.Limits
import SeaStore.Dht.Reached
import SeaStore.Controller.Bootstrap
import SeaStore.Controller.Protocol
import SeaStore.Controller.Reply
import SeaStore.Controller.Remote
import SeaStore.Controller.Fallback
import SeaStore.Rest.Server
import SeaStore.Rest.Ids
import SeaStore.Graph.Node
import SeaStore.Graph.Graph
import SeaStore.Graph.Insert
import SeaStore.Graph.NodeData
import SeaStore.Graph.Lookup
import SeaStore.Graph.Sessions
import SeaStore.Graph.Update
import SeaStore.Graph.Destroy
import SeaStore.Column.Array
import SeaStore.Column.Calls
import SeaStore.Column.ArrayRun
import SeaStore.Column.ReadLimits
import SeaStore.Column.Failure
import SeaStore.Column.Recreate
import SeaStore.Word.Word
import SeaStore.Word.Calls
import SeaStore.Word.Search
import SeaStore.Word.Forward
