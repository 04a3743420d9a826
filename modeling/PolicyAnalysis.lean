import PolicyAnalysis.Json.Printer
import PolicyAnalysis.Json.Parser
import PolicyAnalysis.Json.Form
import PolicyAnalysis.Network
import PolicyAnalysis.Network.Words
import PolicyAnalysis.Context
import PolicyAnalysis.Condition.TruthTable
import PolicyAnalysis.Rule.Basic
import PolicyAnalysis.Policy.Symbol
import PolicyAnalysis.Policy.Build
import PolicyAnalysis.Rule.Form
import PolicyAnalysis.Policy.Form
import PolicyAnalysis.PermissionMap.Form
import PolicyAnalysis.Settings.Form
import PolicyAnalysis.Toml.Parser
import PolicyAnalysis.Toml.Printer
import PolicyAnalysis.Settings.Document
import PolicyAnalysis.PermissionMap.Document
import PolicyAnalysis.PermissionMap.Editing
import PolicyAnalysis.Enumeration
import PolicyAnalysis.Digraph.SimplePaths
import PolicyAnalysis.Digraph.Discovery
import PolicyAnalysis.Digraph.ShortestPaths
import PolicyAnalysis.Digraph.Route
import PolicyAnalysis.Flow.Filter
import PolicyAnalysis.Flow.Analysis
import PolicyAnalysis.Digraph.Form
import PolicyAnalysis.Flow.Form
import PolicyAnalysis.Grouping
import PolicyAnalysis.Transition.Analysis
import PolicyAnalysis.Transition.Form
import PolicyAnalysis.Transition.Gathering
import PolicyAnalysis.Difference.Aspect
import PolicyAnalysis.Difference.Labels
import PolicyAnalysis.Difference.Report
import PolicyAnalysis.Proofs.Digraph.Edges
import PolicyAnalysis.Proofs.Digraph.Reachable
import PolicyAnalysis.Proofs.Digraph.Walk
import PolicyAnalysis.Proofs.LazyList
import PolicyAnalysis.Proofs.Enumeration
import PolicyAnalysis.Proofs.Digraph.SimplePaths
import PolicyAnalysis.Proofs.Digraph.Distance
import PolicyAnalysis.Proofs.Digraph.Discovery
import PolicyAnalysis.Proofs.Digraph.ShortestPaths
import PolicyAnalysis.Proofs.Checked
import PolicyAnalysis.Proofs.Policy.TypeTables
import PolicyAnalysis.Proofs.Policy.Build
import PolicyAnalysis.Proofs.Policy.Types
import PolicyAnalysis.Proofs.Policy.Rules
import PolicyAnalysis.Proofs.PermissionMap.Weights
import PolicyAnalysis.Proofs.Flow.Contributions
import PolicyAnalysis.Proofs.Flow.Graph
import PolicyAnalysis.Proofs.Condition.Evaluate
import PolicyAnalysis.Proofs.Policy.Booleans
import PolicyAnalysis.Proofs.Flow.Filter
import PolicyAnalysis.Proofs.Grouping
import PolicyAnalysis.Proofs.Transition.Grants
import PolicyAnalysis.Proofs.Transition.Graph
import PolicyAnalysis.Proofs.Transition.Filter
import PolicyAnalysis.Proofs.Difference.Change
import PolicyAnalysis.Proofs.Keyed
import PolicyAnalysis.Proofs.Difference.Between
import PolicyAnalysis.Proofs.Policy.Tables
import PolicyAnalysis.Proofs.Difference.Reading
import PolicyAnalysis.Proofs.Difference.Readings
import PolicyAnalysis.Proofs.Difference.Comparison
import PolicyAnalysis.Proofs.Digraph.Mirror
import PolicyAnalysis.Proofs.Survey.Answers
import PolicyAnalysis.Proofs.Survey.Memory
import PolicyAnalysis.Proofs.Survey.Runs
import PolicyAnalysis.Proofs.Difference.Agreement
import PolicyAnalysis.Proofs.Difference.Flows
import PolicyAnalysis.Proofs.Transition.Mirror
import PolicyAnalysis.Proofs.Digraph.Drawing
import PolicyAnalysis.Proofs.Transition.Halves
import PolicyAnalysis.Proofs.Policy.References
import PolicyAnalysis.Proofs.Policy.Synonyms
import PolicyAnalysis.Proofs.Policy.Renaming
import PolicyAnalysis.Proofs.Policy.Matching
import PolicyAnalysis.Proofs.Difference.Aliases
import PolicyAnalysis.Proofs.Policy.Levels
import PolicyAnalysis.Proofs.Policy.Canonical
import PolicyAnalysis.Proofs.Policy.Dominance
import PolicyAnalysis.Proofs.Policy.Replacing
import PolicyAnalysis.Proofs.Difference.SingleValues
import PolicyAnalysis.Proofs.Difference.Dominance
import PolicyAnalysis.Proofs.Difference.Moves
import PolicyAnalysis.Proofs.Condition.Formula
import PolicyAnalysis.Proofs.Condition.Rows
import PolicyAnalysis.Proofs.Policy.Closed
import PolicyAnalysis.Proofs.Address.Text
import PolicyAnalysis.Proofs.Network
import PolicyAnalysis.Proofs.Json.Form
import PolicyAnalysis.Proofs.Json.Records
import PolicyAnalysis.Proofs.Toml.Quoted
import PolicyAnalysis.Proofs.Toml.Number
import PolicyAnalysis.Proofs.Toml.Values
import PolicyAnalysis.Proofs.Toml.Draft
import PolicyAnalysis.Proofs.Toml.Document
import PolicyAnalysis.Proofs.Settings.Document
import PolicyAnalysis.Proofs.Transition.Provenance
import PolicyAnalysis.Proofs.Policy.Declarations
import PolicyAnalysis.Proofs.Policy.Drafts
import PolicyAnalysis.Proofs.Policy.Symbols
import PolicyAnalysis.Proofs.PermissionMap.Entries
import PolicyAnalysis.Proofs.PermissionMap.Editing
import PolicyAnalysis.Proofs.PermissionMap.Exclusion
import PolicyAnalysis.Proofs.PermissionMap.Completion
