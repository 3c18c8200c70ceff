import LaunchGraph.Main
import LaunchGraph.Proofs.Progress
import LaunchGraph.Proofs.EdgeOrder
import LaunchGraph.Proofs.ConflictOrder
import LaunchGraph.Proofs.SequentialRuns
import LaunchGraph.Proofs.EdgeSet
import LaunchGraph.Proofs.Barriers
import LaunchGraph.Proofs.Containment
import LaunchGraph.Proofs.Tracking
import LaunchGraph.Proofs.IssueLog
import LaunchGraph.Proofs.Listing
import LaunchGraph.Proofs.Recycling
import LaunchGraph.Proofs.Scripts
import LaunchGraph.Proofs.CheckedRuns
import LaunchGraph.Proofs.Confluence
import LaunchGraph.Proofs.Bookkeeping
import LaunchGraph.Proofs.Resources
import LaunchGraph.Proofs.IssueTiming
import LaunchGraph.Proofs.Sharing
import LaunchGraph.Proofs.Precision
import LaunchGraph.Proofs.Representation
import LaunchGraph.Proofs.Persistence
import LaunchGraph.Proofs.Blame
import LaunchGraph.Proofs.Cascade
import LaunchGraph.Proofs.Frontier
import LaunchGraph.Proofs.Launches
import LaunchGraph.Proofs.Signatures
import LaunchGraph.Proofs.Verdicts
