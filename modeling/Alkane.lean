import Alkane.Core.Types
import Alkane.Core.Storage
import Alkane.Core.FairOrder
import Alkane.Core.Consensus
import Alkane.Core.Exec
import Alkane.Core.Lemmas.Basic
import Alkane.Core.Lemmas.Step
import Alkane.Core.Lemmas.Walk
import Alkane.Core.Lemmas.Ops
import Alkane.Core.Lemmas.Wf
import Alkane.Core.Lemmas.Commit
import Alkane.Core.Lemmas.Prune
import Alkane.Core.Lemmas.Orders
import Alkane.Core.Invariants.Height
import Alkane.Core.Lemmas.Steady
import Alkane.Core.Invariants.Decided
import Alkane.Core.Invariants.Monotone
import Alkane.Core.Invariants.Vote
import Alkane.Core.Invariants.Tails
import Alkane.Core.Invariants.QcWaiting
import Alkane.Core.Invariants.Quorum
import Alkane.Core.Invariants.Redeliver
import Alkane.Core.Invariants.Release
import Alkane.Core.Wire.Stream
import Alkane.Core.Wire.Messages
import Alkane.Core.Fair.Majority
import Alkane.Core.Fair.Merge
import Alkane.Core.Fair.LocalOrder
import Alkane.Core.Fair.Leader
import Alkane.Core.Fair.Finalize
import Alkane.Core.Invariants.Finality
import Alkane.Core.Invariants.VoteHeight
import Alkane.Core.System
import Alkane.Core.System.Quorum
import Alkane.Core.Wrap
