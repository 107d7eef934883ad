import SynapS3.Access.Recency
import SynapS3.Admin.Limiter
import SynapS3.Cache.Paths
import SynapS3.Cache.Truthful
import SynapS3.Capacity.Exact
import SynapS3.DataSet.OneDataSet
import SynapS3.Durability.Eviction
import SynapS3.Eviction.Burst
import SynapS3.Gate.Exclusion
import SynapS3.Listing.Skips
import SynapS3.Multipart.Listing
import SynapS3.Multipart.Replace
import SynapS3.Object.ETagLists
import SynapS3.Object.Linear
import SynapS3.Provider.Select
import SynapS3.Pull.Fenced
import SynapS3.Queue.Heads
import SynapS3.Removal.Lifecycle
import SynapS3.Removal.Room
import SynapS3.Retirement.Runs
import SynapS3.StorageCommit.ChainDecides
import SynapS3.Task.Claim
import SynapS3.Task.Dispatcher
import SynapS3.Task.Observation
import SynapS3.Termination.NoRace
import SynapS3.Wallet.OnePayment
import SynapS3.Wallet.Replay
