import RecordLayout.Action
import RecordLayout.Binary.Codec
import RecordLayout.Binary.Samples
import RecordLayout.Binary.Scalar
import RecordLayout.Code.Name
import RecordLayout.Code.Statement
import RecordLayout.Code.Unit
import RecordLayout.CommandLine.Options
import RecordLayout.CommandLine.Run
import RecordLayout.Conversion
import RecordLayout.Definition.Declarator
import RecordLayout.Definition.Error
import RecordLayout.Definition.Line
import RecordLayout.Directory.DefinitionFile
import RecordLayout.Directory.DependencyOrder
import RecordLayout.Directory.Run
import RecordLayout.Field
import RecordLayout.FieldTable
import RecordLayout.FileTree
import RecordLayout.Main
import RecordLayout.Path
import RecordLayout.Primitive
import RecordLayout.SizeCatalog.Basic
import RecordLayout.SizeCatalog.Json
import RecordLayout.SizeSource.Basic
import RecordLayout.SizeSource.Prompt
import RecordLayout.SizeSource.Responder
import RecordLayout.Stream.Bytes
import RecordLayout.Stream.ControlSequence
import RecordLayout.Stream.Fault
import RecordLayout.Stream.Sink
import RecordLayout.Stream.Source
import RecordLayout.Text.Blank
import RecordLayout.Text.Integer
import RecordLayout.Text.Line
import RecordLayout.Text.Quoted
import RecordLayout.Text.Unprintable
import RecordLayout.Trace
import RecordLayout.Proofs.MemberList
import RecordLayout.Proofs.MemberTypes
import RecordLayout.Proofs.Layout
import RecordLayout.Proofs.BigEndian
import RecordLayout.Proofs.Slots
import RecordLayout.Proofs.RecordCode
import RecordLayout.Proofs.SampleRecords
import RecordLayout.Proofs.DependencySearch
import RecordLayout.Proofs.SearchSteps
import RecordLayout.Proofs.StableOrder
import RecordLayout.Proofs.CycleWarnings
import RecordLayout.Proofs.FilePlaces
import RecordLayout.Proofs.Scan
import RecordLayout.Proofs.DirectoryRun
import RecordLayout.Proofs.CatalogGrowth
import RecordLayout.Proofs.ConversionRun
import RecordLayout.Proofs.Independence
import RecordLayout.Proofs.TextLines
import RecordLayout.Proofs.QuickLook
import RecordLayout.Proofs.Consumption
import RecordLayout.Proofs.Declarators
import RecordLayout.Proofs.DeclaratorGrammar
import RecordLayout.Proofs.LineGrammar
import RecordLayout.Proofs.Printing
import RecordLayout.Proofs.Repetition
import RecordLayout.Proofs.SizeOrigin
import RecordLayout.Proofs.Delivery
import RecordLayout.Proofs.CatalogUse
import RecordLayout.Proofs.FileWrites
import RecordLayout.Proofs.SavedCatalog
import RecordLayout.Proofs.SingleFile
import RecordLayout.Proofs.DirectoryFiles
import RecordLayout.Proofs.FirstFault
import RecordLayout.Proofs.LayoutComment
import RecordLayout.Proofs.PromptAnswers
import RecordLayout.Proofs.Respacing
import RecordLayout.Proofs.FieldTexts
import RecordLayout.Proofs.ScalarAccess
import RecordLayout.Proofs.Accesses
import RecordLayout.Proofs.TableColumns
import RecordLayout.Proofs.ShortBuffers
import RecordLayout.Proofs.Imports
import RecordLayout.Proofs.FieldNames
import RecordLayout.Proofs.CodeGrammar
import RecordLayout.Proofs.CodeProgram
import RecordLayout.Proofs.CodeMeaning
