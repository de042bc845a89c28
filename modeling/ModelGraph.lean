import ModelGraph.Main
import ModelGraph.Multiplicity.Read
import ModelGraph.Proofs.Build.Anchors
import ModelGraph.Proofs.Build.Applications
import ModelGraph.Proofs.Build.Gates
import ModelGraph.Proofs.Build.Order
import ModelGraph.Proofs.Domain.Agreement
import ModelGraph.Proofs.Domain.Generalization
import ModelGraph.Proofs.Domain.Undated
import ModelGraph.Proofs.Document.Encoding
import ModelGraph.Proofs.Document.Interleaving
import ModelGraph.Proofs.Expression.Captured
import ModelGraph.Proofs.Expression.Dispatch
import ModelGraph.Proofs.Expression.Navigation
import ModelGraph.Proofs.Expression.Trees
import ModelGraph.Proofs.Expression.Warnings
import ModelGraph.Proofs.Hierarchy.Order
import ModelGraph.Proofs.Mapping.Ids
import ModelGraph.Proofs.Mapping.Roots
import ModelGraph.Proofs.Mapping.SourceKinds
import ModelGraph.Proofs.Multiplicity
import ModelGraph.Proofs.Package
import ModelGraph.Proofs.Relational.Includes
import ModelGraph.Proofs.Schema.Leaves
import ModelGraph.Proofs.Service.Connections
