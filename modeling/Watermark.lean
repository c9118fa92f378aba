import Watermark.Settings.Issue
import Watermark.Settings.Json
import Watermark.Compile
import Watermark.Assistant.Conversation
import Watermark.Assistant.Session
import Watermark.Storage.Basic
import Watermark.Storage.Disk
import Watermark.Config.Basic
import Watermark.Config.File
import Watermark.Problem
import Watermark.Settings.File
import Watermark.Assistant.Client
import Watermark.CommandLine.Arguments
import Watermark.CommandLine.Run
import Watermark.Main
import Watermark.Proofs.Number.Rounding
import Watermark.Proofs.Number.Shortest
import Watermark.Proofs.Number.Numeral
import Watermark.Proofs.Filter.Pipeline
import Watermark.Proofs.Command.Arguments
import Watermark.Proofs.Script.Path
import Watermark.Proofs.Script.Join
import Watermark.Proofs.Script.ShellWords
import Watermark.Proofs.Script.PosixScript
import Watermark.Proofs.Script.LoopVariables
import Watermark.Proofs.Script.QuotedPieces
import Watermark.Proofs.Filter.Expression
import Watermark.Proofs.Command.SingleCommand
import Watermark.Proofs.Characters
import Watermark.Proofs.Script.BatchCommand
import Watermark.Proofs.Filter.LinearChain
import Watermark.Proofs.Script.OutputNames
import Watermark.Proofs.Json.Quoted
import Watermark.Proofs.Json.Number
import Watermark.Proofs.Json.Float
import Watermark.Proofs.Json.Record
import Watermark.Proofs.Settings.Reload
import Watermark.Proofs.Settings.CleanReport
import Watermark.Proofs.Assistant.History
import Watermark.Proofs.Assistant.Staleness
import Watermark.Proofs.Script.PercentPairs
import Watermark.Proofs.Settings.LastingIssues
import Watermark.Proofs.Command.Slots
import Watermark.Proofs.Script.BatchPaths
import Watermark.Proofs.Filter.Arithmetic
import Watermark.Proofs.Filter.CropWindow
import Watermark.Proofs.Number.Bounds
import Watermark.Proofs.Command.SplicedNumbers
import Watermark.Proofs.Json.Content
import Watermark.Proofs.Json.Object
import Watermark.Proofs.Json.Range
import Watermark.Proofs.Settings.Members
import Watermark.Proofs.Settings.SourceChanges
import Watermark.Proofs.Assistant.Prompt
import Watermark.Proofs.Config.Reload
import Watermark.Proofs.Assistant.Replies
import Watermark.Proofs.Number.Nearest
import Watermark.Proofs.Number.ReadBack
import Watermark.Proofs.CommandLine.Files
