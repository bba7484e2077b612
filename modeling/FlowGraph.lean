import FlowGraph.Fragment.Renaming
import FlowGraph.Naming
import FlowGraph.Operation.Standard
import FlowGraph.Proofs.Splicing
import FlowGraph.Proofs.Optimization
import FlowGraph.Package
import FlowGraph.Session
import FlowGraph.Proofs.Preservation
import FlowGraph.Proofs.Interruption
import FlowGraph.Proofs.FreshNames
import FlowGraph.Proofs.Renaming
import FlowGraph.Proofs.Safety
import FlowGraph.Proofs.NormalForm
import FlowGraph.Proofs.Resolution
import FlowGraph.Proofs.Cycles
import FlowGraph.Proofs.Containment
import FlowGraph.Proofs.DepthOrder
import FlowGraph.Proofs.Numbering
import FlowGraph.Proofs.Lifetimes
import FlowGraph.Proofs.Restoration
import FlowGraph.Proofs.FusionGuard
import FlowGraph.Proofs.SplitRuns
import FlowGraph.Proofs.SplitChains
import FlowGraph.Proofs.Regrouping
import FlowGraph.Proofs.FoldLevels
import FlowGraph.Proofs.ConstantClosure
import FlowGraph.Proofs.Reevaluation
import FlowGraph.Proofs.Merging
import FlowGraph.Proofs.LiveParts
import FlowGraph.Proofs.CopyingRuns
import FlowGraph.Proofs.Embedding
import FlowGraph.Proofs.Occurrences
import FlowGraph.Proofs.Composition
import FlowGraph.Proofs.PolicyBinding
import FlowGraph.Proofs.Marks
import FlowGraph.Proofs.BindingEdges
import FlowGraph.Proofs.Labels
import FlowGraph.Proofs.Clusters
import FlowGraph.Proofs.Drawings
