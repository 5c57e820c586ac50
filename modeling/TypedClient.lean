import TypedClient.Main
import TypedClient.Proofs.ClientClosure
import TypedClient.Proofs.ExportedNames
import TypedClient.Proofs.FactoryScope
import TypedClient.Proofs.SchemaReading
import TypedClient.Proofs.DescriptiveText
import TypedClient.Proofs.DryRuns
import TypedClient.Proofs.TypesBlocks
import TypedClient.Proofs.IgnoredKeywords
import TypedClient.Proofs.Compositions
import TypedClient.Proofs.PathAgreement
import TypedClient.Proofs.ReferencedParameters
import TypedClient.Proofs.FieldNames
import TypedClient.Proofs.WrittenFiles
import TypedClient.Proofs.ArrayGrouping
import TypedClient.Proofs.PhaseOrder
import TypedClient.Proofs.PathPrefixes
import TypedClient.Proofs.ConfinedWrites
import TypedClient.Proofs.RecordReading
import TypedClient.Proofs.LenientReading
import TypedClient.Proofs.TokenTexts
import TypedClient.Proofs.CompleteTrees
import TypedClient.Proofs.SchemaAddresses
import TypedClient.Proofs.WellFormedApis
import TypedClient.Proofs.SharedParameters
import TypedClient.Proofs.PathItemKeys
import TypedClient.Proofs.PathUses
import TypedClient.Proofs.EmittedCounts
import TypedClient.Proofs.QuotedNames
import TypedClient.Proofs.DeclaredIdentifiers
import TypedClient.Proofs.InterfaceReading
import TypedClient.Proofs.SchemaTexts
import TypedClient.Proofs.NestedFragments
import TypedClient.Proofs.ModuleSections
import TypedClient.Proofs.WordBoundaries
