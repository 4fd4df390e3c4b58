import Rollout.Main
import Rollout.Proofs.Config.Nearest
import Rollout.Proofs.Config.RoundTrip
import Rollout.Proofs.Config.Profiles
import Rollout.Proofs.Config.Sources
import Rollout.Proofs.Config.UnknownKeys
import Rollout.Proofs.Graph.Adjacency
import Rollout.Proofs.Graph.Assembly
import Rollout.Proofs.Graph.Bookkeeping
import Rollout.Proofs.Graph.Closure
import Rollout.Proofs.Graph.Display
import Rollout.Proofs.Graph.Opposite
import Rollout.Proofs.Graph.Rejection
import Rollout.Proofs.Traverse.Order
import Rollout.Proofs.Traverse.Outcome
import Rollout.Proofs.Traverse.Progress
import Rollout.Proofs.Traverse.Parallelism
import Rollout.Proofs.Traverse.Exclusion
import Rollout.Proofs.Traverse.Requests
import Rollout.Proofs.Traverse.Consistency
import Rollout.Proofs.Traverse.Stopping
import Rollout.Proofs.Traverse.Limiter
import Rollout.Proofs.Traverse.Agreement
import Rollout.Proofs.Traverse.Causes
import Rollout.Proofs.Traverse.Counters
import Rollout.Proofs.Traverse.Duality
import Rollout.Proofs.Traverse.Effect
import Rollout.Proofs.Traverse.Refusal
import Rollout.Proofs.Traverse.Roots
import Rollout.Proofs.Traverse.Seeds
import Rollout.Proofs.Traverse.Tokens
import Rollout.Proofs.Plan.Making
import Rollout.Proofs.Plan.Mirror
import Rollout.Proofs.Plan.Restart
import Rollout.Proofs.Program.Arguments
import Rollout.Proofs.Program.Runs
import Rollout.Proofs.Program.Overview
import Rollout.Proofs.Program.Prediction
