import TapeLang.Text.Utf8
import TapeLang.Text.Printable
import TapeLang.Text.White
import TapeLang.Text.Quoted
import TapeLang.Text.Word
import TapeLang.Text.Decimal
import TapeLang.Source.Position
import TapeLang.Source.CodeFrame
import TapeLang.Source.Token
import TapeLang.Program.Basic
import TapeLang.Program.Parse
import TapeLang.Program.Layout
import TapeLang.Channel.Basic
import TapeLang.Channel.Buffer
import TapeLang.Channel.Stream
import TapeLang.Channel.Device
import TapeLang.Machine.Basic
import TapeLang.Machine.Run
import TapeLang.Machine.Engine
import TapeLang.Lint
import TapeLang.Editor.Column
import TapeLang.Editor.Hover
import TapeLang.Editor.Diagnostic
import TapeLang.Json.Basic
import TapeLang.Json.Lexeme
import TapeLang.Json.Read
import TapeLang.Json.Decode
import TapeLang.Server.Docs
import TapeLang.Server.Message
import TapeLang.Server.Handle
import TapeLang.Server.Serve
import TapeLang.Settings.Basic
import TapeLang.Repl.LineEdit
import TapeLang.Repl.InputText
import TapeLang.Repl.Session
import TapeLang.Repl.Panel
import TapeLang.Repl.View
import TapeLang.Yaml.Cursor
import TapeLang.Yaml.Scalar
import TapeLang.Yaml.Node
import TapeLang.Yaml.Resolve
import TapeLang.Settings.Read
import TapeLang.Files.Path
import TapeLang.Files.Tree
import TapeLang.Settings.Load
import TapeLang.Command.Flags
import TapeLang.Command.Basic
import TapeLang.Command.Result
import TapeLang.Command.Run
import TapeLang.Command.Analyze
import TapeLang.Command.Format
import TapeLang.Command.Perform
import TapeLang.Text.Elapsed
import TapeLang.Main
import TapeLang.Proofs.Utf8
import TapeLang.Proofs.Pieces
import TapeLang.Proofs.Framing
import TapeLang.Proofs.Documents
import TapeLang.Proofs.Serving
import TapeLang.Proofs.Brackets
import TapeLang.Proofs.Tokens
import TapeLang.Proofs.Spelling
import TapeLang.Proofs.Parse
import TapeLang.Proofs.Flat
import TapeLang.Proofs.Layout
import TapeLang.Proofs.DeadLoops
import TapeLang.Proofs.Alike
import TapeLang.Proofs.Reformat
import TapeLang.Proofs.Progress
import TapeLang.Proofs.Quota
import TapeLang.Proofs.Cancelling
import TapeLang.Proofs.Splitting
import TapeLang.Proofs.ParseErrors
import TapeLang.Proofs.Frames
import TapeLang.Proofs.Places
import TapeLang.Proofs.Steps
import TapeLang.Proofs.Delivery
import TapeLang.Proofs.Accepted
import TapeLang.Proofs.Sessions
import TapeLang.Proofs.TapeBounds
import TapeLang.Proofs.Interchange
import TapeLang.Proofs.Resets
import TapeLang.Proofs.Responses
import TapeLang.Proofs.Diagnostics
import TapeLang.Proofs.Hovering
import TapeLang.Proofs.Columns
import TapeLang.Proofs.Remarks
import TapeLang.Proofs.Canonical
import TapeLang.Proofs.Faults
import TapeLang.Proofs.LineEdits
import TapeLang.Proofs.Recall
import TapeLang.Proofs.Unread
import TapeLang.Proofs.Trees
import TapeLang.Proofs.ByteOrder
import TapeLang.Proofs.Collecting
import TapeLang.Proofs.Formatting
import TapeLang.Proofs.Quoting
import TapeLang.Proofs.Commands
import TapeLang.Proofs.Counting
import TapeLang.Proofs.Panels
import TapeLang.Proofs.Configuration
