import CocoDB.Wal.Reopen
import CocoDB.Storage.Recency
import CocoDB.BTree.Verify
import CocoDB.BTree.CacheLimit
import CocoDB.KV.Calls
import CocoDB.Cson.Persistence
import CocoDB.Document.Access
import CocoDB.Record.Blobs
import CocoDB.Record.Chains
import CocoDB.Text.Scanning
import CocoDB.Text.TopK
import CocoDB.Vector.GraphRun
import CocoDB.Vector.Unrolled
import CocoDB.Text.InvertedSpec
import CocoDB.Queue.Codec
import CocoDB.Queue.Handle
import CocoDB.Queue.Lease
import CocoDB.Queue.Selection
import CocoDB.Cluster.Client
import CocoDB.Cluster.Routing
import CocoDB.Cluster.Enqueue
import CocoDB.DB.Catalog
import CocoDB.DB.HandleSafety
import CocoDB.DB.Released
import CocoDB.Maintenance.CheckpointSafety
import CocoDB.PubSub.Backpressure
import CocoDB.PubSub.Offers
import CocoDB.TimeSeries.Summaries
import CocoDB.PubSub.Wildcard
import CocoDB.PubSub.Kept
import CocoDB.Query.Aggregates
import CocoDB.Document.Uniqueness
import CocoDB.Maintenance.ExpiryRuns
import CocoDB.TimeSeries.Histories
