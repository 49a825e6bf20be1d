import StoreModel.Entity.Registration
import StoreModel.Json.PropertyForm
import StoreModel.Main
import StoreModel.Output.Outcome
import StoreModel.Output.Writing
import StoreModel.Proofs.Derivation
import StoreModel.Proofs.Keyed
import StoreModel.Record.Loading
import StoreModel.Record.Saving
import StoreModel.Proofs.Emission
import StoreModel.Proofs.Loading
import StoreModel.Proofs.RoundTrip
import StoreModel.Proofs.SortedEntries
import StoreModel.Proofs.Collisions
import StoreModel.Proofs.Acceptance
import StoreModel.Proofs.ByteOrder
import StoreModel.Proofs.Correspondence
import StoreModel.Proofs.Composition
import StoreModel.Proofs.Evolution
import StoreModel.Proofs.Tags
import StoreModel.Proofs.Storability
import StoreModel.Proofs.Views
import StoreModel.Proofs.DeclarationOrder
import StoreModel.Proofs.OutputPath
import StoreModel.Proofs.FileOutput
import StoreModel.Proofs.LiteralReading
import StoreModel.Proofs.Lexing
import StoreModel.Proofs.ModuleTokens
import StoreModel.Proofs.ModuleReading
import StoreModel.Proofs.ImportNames
import StoreModel.Proofs.Injectivity
import StoreModel.Proofs.Unsaved
import StoreModel.Proofs.KindBoundaries
import StoreModel.Proofs.QueryTexts
import StoreModel.Proofs.SavedProperties
import StoreModel.Proofs.IndexingOff
import StoreModel.Proofs.KeyArguments
import StoreModel.Proofs.DeclarationReading
import StoreModel.Proofs.TypeForms
import StoreModel.Proofs.StorableTypes
import StoreModel.Proofs.Wrapping
import StoreModel.Proofs.ShapeReading
import StoreModel.Proofs.RegistrationReading
import StoreModel.Proofs.RegistrationDecoding
import StoreModel.Proofs.Stages
import StoreModel.Proofs.ErrorLines
import StoreModel.Proofs.DigitReading
import StoreModel.Proofs.TimestampReading
import StoreModel.Proofs.JsonReading
import StoreModel.Proofs.PropertyReading
import StoreModel.Proofs.Spacing
