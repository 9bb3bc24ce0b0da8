import FlowGraph.CommandLine.Terminal
import FlowGraph.Document.Untyped
import FlowGraph.Main
import FlowGraph.Proofs.Announcements.Run
import FlowGraph.Proofs.Arguments
import FlowGraph.Proofs.Bindings
import FlowGraph.Proofs.Commutation
import FlowGraph.Proofs.Document.Acceptance
import FlowGraph.Proofs.Document.Content
import FlowGraph.Proofs.Document.PinLists
import FlowGraph.Proofs.Document.Reload
import FlowGraph.Proofs.Document.Text
import FlowGraph.Proofs.Evaluation.Cycles
import FlowGraph.Proofs.Evaluation.Effects
import FlowGraph.Proofs.Evaluation.History
import FlowGraph.Proofs.Evaluation.PullCounts
import FlowGraph.Proofs.Evaluation.Recursion
import FlowGraph.Proofs.Evaluation.Staleness
import FlowGraph.Proofs.Evaluation.Success
import FlowGraph.Proofs.Evaluation.Typing
import FlowGraph.Proofs.Linking
import FlowGraph.Proofs.Numbering
import FlowGraph.Proofs.Orientation
import FlowGraph.Proofs.PropertyTree
import FlowGraph.Proofs.Redirection
import FlowGraph.Subscribers
import FlowGraph.Table.Lemmas
