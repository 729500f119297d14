import Recast.Artifact.Synthesis
import Recast.CommandLine.Run
import Recast.Component.Analysis
import Recast.Config.Read
import Recast.Conversion.Report
import Recast.Decimal.Print
import Recast.Disk.Basic
import Recast.Main
import Recast.Optimize.BuiltIn
import Recast.Pattern.Generated
import Recast.Pattern.Idiom
import Recast.Pattern.Report
import Recast.Proofs.Artifact.DeclaredNames
import Recast.Proofs.Artifact.Idioms
import Recast.Proofs.Artifact.StateHomes
import Recast.Proofs.Conversion.Accounting
import Recast.Proofs.Names.Binding
import Recast.Proofs.Optimize.Settling
import Recast.Proofs.Suite.References
import Recast.Proofs.Text.Blanking
import Recast.Shell.Machine
import Recast.Suite.Synthesis
import Recast.Text.Case
import Recast.Text.Offset
import Recast.Text.Quoted
import Recast.Text.Split
import Recast.Tool.Outcome
import Recast.Proofs.Artifact.Registration
import Recast.Proofs.Artifact.ServiceText
import Recast.Proofs.Text.Balance
import Recast.Proofs.Optimize.Caching
import Recast.Proofs.Component.AssignedProps
import Recast.Proofs.Component.Renaming
import Recast.Proofs.Pattern.Parting
import Recast.Proofs.Artifact.Fences
import Recast.Proofs.Artifact.OpenIdioms
import Recast.Proofs.Artifact.Prose
import Recast.Proofs.Artifact.OutputPaths
import Recast.Proofs.Tool.Verdict
import Recast.Proofs.Optimize.Exactness
import Recast.Proofs.Component.WrittenEntries
import Recast.Proofs.Artifact.SetterCalls
import Recast.Proofs.Artifact.PropsObject
import Recast.Proofs.Optimize.EarlyReturns
import Recast.Proofs.Text.Partners
import Recast.Proofs.Artifact.ImportLines
import Recast.Proofs.Text.TopLevel
import Recast.Proofs.Artifact.StatementExtents
import Recast.Proofs.Artifact.Specifiers
import Recast.Proofs.Optimize.HintPlaces
import Recast.Proofs.Artifact.EndpointPaths
import Recast.Proofs.Artifact.FrameworkImport
import Recast.Proofs.Component.RequiredProps
import Recast.Proofs.Names.Dependencies
import Recast.Proofs.Suite.RequestedPaths
import Recast.Proofs.Suite.StateScenarios
import Recast.Proofs.Artifact.StoreMembers
import Recast.Proofs.Suite.StoreUpdates
import Recast.Proofs.Artifact.BuilderLayout
import Recast.Proofs.Tool.LineReports
import Recast.Proofs.Suite.ScenarioCoverage
import Recast.Proofs.Component.TierWords
import Recast.Proofs.Artifact.ClassLists
import Recast.Proofs.Text.Dedent
import Recast.Proofs.Text.Escapes
import Recast.Proofs.Artifact.Spellings
import Recast.Proofs.Text.NameRuns
import Recast.Proofs.Component.PropSources
import Recast.Proofs.Optimize.ImportedNames
