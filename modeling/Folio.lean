import Folio.Bindings
import Folio.Build.Enhance
import Folio.Build.Plan
import Folio.Build.Render
import Folio.Command.Arguments
import Folio.Command.Build
import Folio.Command.Copy
import Folio.Command.Environment
import Folio.Command.Magazine
import Folio.Command.PlainBuild
import Folio.Command.Relay
import Folio.Console
import Folio.Directive.Call
import Folio.Directive.Definitions
import Folio.Directive.Error
import Folio.Directive.Expansion
import Folio.Directive.Items
import Folio.Directive.Resolution
import Folio.Directive.Signature
import Folio.Directive.Template
import Folio.Failure
import Folio.Files.Access
import Folio.Files.Path
import Folio.Files.Tree
import Folio.Main
import Folio.Number.Double
import Folio.Number.Numeral
import Folio.Number.Shortest
import Folio.Page.Document
import Folio.Page.Sections
import Folio.Page.Title
import Folio.Page.Tokens
import Folio.Preview.Browser
import Folio.Preview.Clock
import Folio.Preview.Daemon
import Folio.Proofs.Build.AcceptedDefinitions
import Folio.Proofs.Build.Documents
import Folio.Proofs.Build.Endings
import Folio.Proofs.Build.FailedLines
import Folio.Proofs.Build.Inputs
import Folio.Proofs.Build.ModesAgree
import Folio.Proofs.Build.Openings
import Folio.Proofs.Build.Overlay
import Folio.Proofs.Build.ParameterSlots
import Folio.Proofs.Build.Producer
import Folio.Proofs.Build.Repetition
import Folio.Proofs.Build.Reports
import Folio.Proofs.Build.Stages
import Folio.Proofs.Build.Steps
import Folio.Proofs.Build.TemplateFaults
import Folio.Proofs.Build.TwoPaths
import Folio.Proofs.Build.UnusedDefinitions
import Folio.Proofs.Command.Arguments
import Folio.Proofs.Command.Build
import Folio.Proofs.Command.Composition
import Folio.Proofs.Command.ErrorAccounting
import Folio.Proofs.Command.ExitCode
import Folio.Proofs.Command.PageByPage
import Folio.Proofs.Command.Rebuild
import Folio.Proofs.Command.Refusals
import Folio.Proofs.Command.Secluded
import Folio.Proofs.Command.SingleBuilds
import Folio.Proofs.Command.Sources
import Folio.Proofs.Command.Writes
import Folio.Proofs.Directive.CallExpansion
import Folio.Proofs.Directive.CallText
import Folio.Proofs.Directive.Characters
import Folio.Proofs.Directive.Declared
import Folio.Proofs.Directive.DefinitionText
import Folio.Proofs.Directive.ErrorModes
import Folio.Proofs.Directive.Filling
import Folio.Proofs.Directive.Includes
import Folio.Proofs.Directive.ItemGrammar
import Folio.Proofs.Directive.Messages
import Folio.Proofs.Directive.QuotedArguments
import Folio.Proofs.Directive.Resolution
import Folio.Proofs.Directive.ResolvedValues
import Folio.Proofs.Directive.Signatures
import Folio.Proofs.Directive.Template
import Folio.Proofs.Directive.UndefinedCalls
import Folio.Proofs.Files.Access
import Folio.Proofs.Files.Folders
import Folio.Proofs.Files.Path
import Folio.Proofs.Files.Tree
import Folio.Proofs.Files.View
import Folio.Proofs.Outcome
import Folio.Proofs.Page.Headings
import Folio.Proofs.Page.InTurn
import Folio.Proofs.Page.Paging
import Folio.Proofs.Page.Sections
import Folio.Proofs.Page.TokenOrder
import Folio.Proofs.Page.Tokens
import Folio.Proofs.Preview.Requests
import Folio.Proofs.Reload.Arrivals
import Folio.Proofs.Reload.Overtaking
import Folio.Proofs.Settings
import Folio.Proofs.Text.Cuts
import Folio.Proofs.Text.FirstLine
import Folio.Proofs.Text.Lines
import Folio.Proofs.Text.Marks
import Folio.Proofs.Text.Sorted
import Folio.Proofs.Watch.LastSave
import Folio.Proofs.Watch.RateLimit
import Folio.Proofs.Workspace
import Folio.Reload.Loop
import Folio.Reload.Query
import Folio.Reload.Session
import Folio.Remote.Control
import Folio.Remote.Message
import Folio.Settings
import Folio.Text.Basic
import Folio.Text.Blank
import Folio.Text.CodeRange
import Folio.Text.Digit
import Folio.Text.Lines
import Folio.Text.Printable
import Folio.Text.Quoted
import Folio.Text.UpperCase
import Folio.Text.Utf8
import Folio.Watch.Debounce
import Folio.Watch.Poll
import Folio.Watch.Watcher
import Folio.Workspace
