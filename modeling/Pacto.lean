import Pacto.Delivery.WholeStream
import Pacto.Delivery.RemoteView
import Pacto.Delivery.Follower
import Pacto.Delivery.Revocation
import Pacto.Promoter.Observing
import Pacto.Promoter.Freeze
import Pacto.Promoter.Preemption
import Pacto.Promoter.Recorded
import Pacto.Promoter.Climb
import Pacto.Promoter.Duties
import Pacto.Promoter.Cover
import Pacto.Diff.Limits
import Pacto.Lock.Pins
import Pacto.Fleet.Manager
import Pacto.Fleet.MergeOrder
import Pacto.Publish.Resume
import Pacto.Publish.Versions
import Pacto.Lock.Whole
import Pacto.Lock.Check
import Pacto.Evidence.Earned
import Pacto.Delivery.Candidates
import Pacto.Delivery.Proposal
import Pacto.Diff.Exact
import Pacto.Diff.Guarantee
import Pacto.Evidence.Replay
import Pacto.Fleet.Revision
import Pacto.Lock.Hash
import Pacto.Promoter.Lifecycle
