import SchemaLint.Main
import SchemaLint.Report.FromJson
import SchemaLint.Schema.Builder
import SchemaLint.Proofs.Addressing
import SchemaLint.Proofs.FirstFailure
import SchemaLint.Proofs.Visiting
import SchemaLint.Proofs.VisitOrder
import SchemaLint.Proofs.Ownership
import SchemaLint.Proofs.RecordedLocations
import SchemaLint.Proofs.Cutting
import SchemaLint.Proofs.DirectiveGrammar
import SchemaLint.Proofs.CommentScope
import SchemaLint.Proofs.HeaderComments
import SchemaLint.Proofs.SuppressedFindings
import SchemaLint.Proofs.DisabledRules
import SchemaLint.Proofs.FileByFile
import SchemaLint.Proofs.NamedSuppression
import SchemaLint.Proofs.SegmentOrder
import SchemaLint.Proofs.JoinedSegments
import SchemaLint.Proofs.RegistrationOutcome
import SchemaLint.Proofs.AddedRule
import SchemaLint.Proofs.GlobMeaning
import SchemaLint.Proofs.DirectoryPatterns
import SchemaLint.Proofs.LayerLoading
import SchemaLint.Proofs.Layers
import SchemaLint.Proofs.InnermostEntry
import SchemaLint.Proofs.LastWriter
import SchemaLint.Proofs.UnrelatedLayers
import SchemaLint.Proofs.Overrides
import SchemaLint.Proofs.FileSelection
import SchemaLint.Proofs.Suggestions
import SchemaLint.Proofs.KeptCharacters
import SchemaLint.Proofs.RepeatedConversion
import SchemaLint.Proofs.ReportRoundTrip
