import EbuildGraph.Atom.Basic
import EbuildGraph.Atom.Name
import EbuildGraph.Atom.Parser
import EbuildGraph.Configuration.Layer
import EbuildGraph.Configuration.ListFile
import EbuildGraph.Configuration.Source
import EbuildGraph.Configuration.UseFlags
import EbuildGraph.Dependency.Basic
import EbuildGraph.Dependency.Blockers
import EbuildGraph.Dependency.Conditional
import EbuildGraph.Dependency.Filter
import EbuildGraph.Dependency.Leaves
import EbuildGraph.Dependency.Parser
import EbuildGraph.Dependency.Satisfaction
import EbuildGraph.Dependency.Selection
import EbuildGraph.Dependency.Simplify
import EbuildGraph.Dependency.Substitution
import EbuildGraph.Ebuild
import EbuildGraph.Error
import EbuildGraph.FileTree
import EbuildGraph.Grammar
import EbuildGraph.Json.Basic
import EbuildGraph.Json.Parser
import EbuildGraph.Metadata.Cache
import EbuildGraph.Metadata.Eapi
import EbuildGraph.Metadata.IUse
import EbuildGraph.Metadata.Keyword
import EbuildGraph.Metadata.Manifest
import EbuildGraph.Names.NameMap
import EbuildGraph.Names.NameSet
import EbuildGraph.Overrides
import EbuildGraph.Package.Basic
import EbuildGraph.Package.Checkout
import EbuildGraph.Package.SourceFile
import EbuildGraph.Path.Basic
import EbuildGraph.Record.Basic
import EbuildGraph.Record.Codec
import EbuildGraph.Record.NestedSources
import EbuildGraph.Record.PostDependencies
import EbuildGraph.Repository.Basic
import EbuildGraph.Repository.Profile
import EbuildGraph.Resolver.Board
import EbuildGraph.Resolver.Requirements
import EbuildGraph.Resolver.Search
import EbuildGraph.Resolver.Selection
import EbuildGraph.Script.Basic
import EbuildGraph.Script.Evaluation
import EbuildGraph.Script.Parser
import EbuildGraph.Settings
import EbuildGraph.SourceUri.Basic
import EbuildGraph.SourceUri.Files
import EbuildGraph.SourceUri.Parser
import EbuildGraph.Text.Base64
import EbuildGraph.Text.Blank
import EbuildGraph.Text.Cased
import EbuildGraph.Text.Hex
import EbuildGraph.Text.Hidden
import EbuildGraph.Text.Lowercase
import EbuildGraph.Text.Natural
import EbuildGraph.Text.Percent
import EbuildGraph.Text.Quoted
import EbuildGraph.Text.Split
import EbuildGraph.Text.Utf8
import EbuildGraph.Toml.Assembly
import EbuildGraph.Toml.Basic
import EbuildGraph.Toml.Parser
import EbuildGraph.Variables
import EbuildGraph.Version.Basic
import EbuildGraph.Version.Order
import EbuildGraph.Version.Parser
import EbuildGraph.Proofs.Atom.Approximation
import EbuildGraph.Proofs.Atom.Equality
import EbuildGraph.Proofs.Atom.Name
import EbuildGraph.Proofs.Atom.Text
import EbuildGraph.Proofs.Configuration.PackageMasks
import EbuildGraph.Proofs.Configuration.UseFlags
import EbuildGraph.Proofs.Dependency.Alternatives
import EbuildGraph.Proofs.Dependency.Blockers
import EbuildGraph.Proofs.Dependency.Commutation
import EbuildGraph.Proofs.Dependency.Conditional
import EbuildGraph.Proofs.Dependency.Decided
import EbuildGraph.Proofs.Dependency.Extraction
import EbuildGraph.Proofs.Dependency.Filter
import EbuildGraph.Proofs.Dependency.Folding
import EbuildGraph.Proofs.Dependency.LeafOrder
import EbuildGraph.Proofs.Dependency.Leaves
import EbuildGraph.Proofs.Dependency.Legible
import EbuildGraph.Proofs.Dependency.Meaning
import EbuildGraph.Proofs.Dependency.NormalForm
import EbuildGraph.Proofs.Dependency.Reading
import EbuildGraph.Proofs.Dependency.RefusedGroups
import EbuildGraph.Proofs.Dependency.Rewriting
import EbuildGraph.Proofs.Dependency.Spelling
import EbuildGraph.Proofs.Dependency.Text
import EbuildGraph.Proofs.Dependency.Token
import EbuildGraph.Proofs.Ebuild
import EbuildGraph.Proofs.Failure
import EbuildGraph.Proofs.FileTree.Arrangement
import EbuildGraph.Proofs.FileTree.Listing
import EbuildGraph.Proofs.FileTree.Places
import EbuildGraph.Proofs.FileTree.Writing
import EbuildGraph.Proofs.Grammar
import EbuildGraph.Proofs.Json.Text
import EbuildGraph.Proofs.Metadata.Cache
import EbuildGraph.Proofs.Metadata.Manifest
import EbuildGraph.Proofs.Package.SourceFile
import EbuildGraph.Proofs.Path.Clean
import EbuildGraph.Proofs.Path.Components
import EbuildGraph.Proofs.Record.Codec
import EbuildGraph.Proofs.Record.CompletedSources
import EbuildGraph.Proofs.Record.NestedSources
import EbuildGraph.Proofs.Record.PostDependencies
import EbuildGraph.Proofs.Repository.Ebuilds
import EbuildGraph.Proofs.Repository.Enumeration
import EbuildGraph.Proofs.Repository.Profiles
import EbuildGraph.Proofs.Repository.References
import EbuildGraph.Proofs.Resolver.Arrangement
import EbuildGraph.Proofs.Resolver.Bound
import EbuildGraph.Proofs.Resolver.Causes
import EbuildGraph.Proofs.Resolver.Closure
import EbuildGraph.Proofs.Resolver.Coherence
import EbuildGraph.Proofs.Resolver.Course
import EbuildGraph.Proofs.Resolver.Fuel
import EbuildGraph.Proofs.Resolver.Genuine
import EbuildGraph.Proofs.Resolver.Graph
import EbuildGraph.Proofs.Resolver.Label
import EbuildGraph.Proofs.Resolver.Names
import EbuildGraph.Proofs.Resolver.NewEbuild
import EbuildGraph.Proofs.Resolver.PostDependencies
import EbuildGraph.Proofs.Resolver.Preference
import EbuildGraph.Proofs.Resolver.Priority
import EbuildGraph.Proofs.Resolver.Requirements
import EbuildGraph.Proofs.Resolver.Resolution
import EbuildGraph.Proofs.Resolver.Satisfiability
import EbuildGraph.Proofs.Resolver.Selectable
import EbuildGraph.Proofs.Resolver.Selection
import EbuildGraph.Proofs.Resolver.Termination
import EbuildGraph.Proofs.Script.Concatenation
import EbuildGraph.Proofs.Script.Evaluation
import EbuildGraph.Proofs.Script.Inclusion
import EbuildGraph.Proofs.Script.LineEnds
import EbuildGraph.Proofs.Script.Lines
import EbuildGraph.Proofs.Script.Quoting
import EbuildGraph.Proofs.Script.Reading
import EbuildGraph.Proofs.Script.Repetition
import EbuildGraph.Proofs.Sorting
import EbuildGraph.Proofs.SourceUri.Downloads
import EbuildGraph.Proofs.SourceUri.Text
import EbuildGraph.Proofs.SourceUri.Written
import EbuildGraph.Proofs.Text.Percent
import EbuildGraph.Proofs.Text.Runs
import EbuildGraph.Proofs.Text.Split
import EbuildGraph.Proofs.Text.Utf8
import EbuildGraph.Proofs.Text.Words
import EbuildGraph.Proofs.Variables
import EbuildGraph.Proofs.Variables.Layers
import EbuildGraph.Proofs.Version.Interval
import EbuildGraph.Proofs.Version.Language
import EbuildGraph.Proofs.Version.Order
import EbuildGraph.Proofs.Version.Pattern
import EbuildGraph.Proofs.Version.Reading
import EbuildGraph.Proofs.Version.Text
