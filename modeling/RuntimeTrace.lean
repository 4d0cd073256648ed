import RuntimeTrace.Activity.Encoding
import RuntimeTrace.Activity.Key
import RuntimeTrace.Json.Printer
import RuntimeTrace.Json.Reader
import RuntimeTrace.Event.Record
import RuntimeTrace.Wire.NetworkLayout
import RuntimeTrace.Recording.Lines
import RuntimeTrace.CallTree.Outline
import RuntimeTrace.Wait
import RuntimeTrace.Collection
import RuntimeTrace.Table
import RuntimeTrace.Time
import RuntimeTrace.Text.Blank
import RuntimeTrace.Text.Utf16
import RuntimeTrace.Text.Utf8
import RuntimeTrace.Request.Tracker
import RuntimeTrace.Interval.Text
import RuntimeTrace.Interval.Json
import RuntimeTrace.Census.Allocations
import RuntimeTrace.Census.Incidents
import RuntimeTrace.Event.FamilySet
import RuntimeTrace.ProcessState
import RuntimeTrace.Audience
import RuntimeTrace.TraceEvents
import RuntimeTrace.Monitor
import RuntimeTrace.Command.FileTree
import RuntimeTrace.Command.Options
import RuntimeTrace.Command.Session
import RuntimeTrace.Main
import RuntimeTrace.Proofs.Activity.RoundTrip
import RuntimeTrace.Proofs.Activity.Keys
import RuntimeTrace.Proofs.Request.Transition
import RuntimeTrace.Proofs.Request.Lifetime
import RuntimeTrace.Proofs.Table
import RuntimeTrace.Proofs.Wait.Outcome
import RuntimeTrace.Proofs.Request.Separation
import RuntimeTrace.Proofs.Collection.Accounting
import RuntimeTrace.Proofs.Wait.Pairing
import RuntimeTrace.Proofs.Collection.Rules
import RuntimeTrace.Proofs.Collection.Pauses
import RuntimeTrace.Proofs.CallTree.Counting
import RuntimeTrace.Proofs.Monitor.Isolation
import RuntimeTrace.Proofs.Request.Aliases
import RuntimeTrace.Proofs.Text.Utf16
import RuntimeTrace.Proofs.Text.Surrogates
import RuntimeTrace.Proofs.Text.Ascii
import RuntimeTrace.Proofs.Text.Pieces
import RuntimeTrace.Proofs.Text.Utf8
import RuntimeTrace.Proofs.Event.FamilyLists
import RuntimeTrace.Proofs.Text.Hexadecimal
import RuntimeTrace.Proofs.Wire.Fields
import RuntimeTrace.Proofs.Wire.Text
import RuntimeTrace.Proofs.Wire.RoundTrip
import RuntimeTrace.Proofs.Activity.Processes
import RuntimeTrace.Proofs.Activity.GuidForm
import RuntimeTrace.Proofs.Activity.Capacity
import RuntimeTrace.Proofs.Activity.Normalising
import RuntimeTrace.Proofs.Process.Parts
import RuntimeTrace.Proofs.Wire.Truncation
import RuntimeTrace.Proofs.Symbols
import RuntimeTrace.Proofs.Process.Naming
import RuntimeTrace.Proofs.Process.Settings
import RuntimeTrace.Proofs.Recording.Fields
import RuntimeTrace.Proofs.Recording.RoundTrip
import RuntimeTrace.Proofs.Recording.MalformedLines
import RuntimeTrace.Proofs.Collection.Interleaving
import RuntimeTrace.Proofs.Request.Misses
import RuntimeTrace.Proofs.Request.Redirects
import RuntimeTrace.Proofs.Request.Changes
import RuntimeTrace.Proofs.Request.Timeline
import RuntimeTrace.Proofs.Request.SecondLeg
import RuntimeTrace.Proofs.Request.Nesting
import RuntimeTrace.Proofs.Symbols.FirstAnswers
import RuntimeTrace.Proofs.Collection.Discipline
import RuntimeTrace.Proofs.Collection.Background
import RuntimeTrace.Proofs.Request.Tiling
import RuntimeTrace.Proofs.CallTree.Preorder
import RuntimeTrace.Proofs.CallTree.Reordering
import RuntimeTrace.Proofs.Census.Ranking
import RuntimeTrace.Proofs.Census.Allocations
import RuntimeTrace.Proofs.Census.Incidents
import RuntimeTrace.Proofs.Binary64
import RuntimeTrace.Proofs.TraceEvents
