import TomlEditor.Editor.Brackets
import TomlEditor.Editor.Session
import TomlEditor.Proofs.Lex.Bytewise.Lexer
import TomlEditor.Lex.TokenStream
import TomlEditor.Main
import TomlEditor.Proofs.Editor.Validation
import TomlEditor.Proofs.Highlight.Incremental
import TomlEditor.Proofs.Highlight.Relexed
import TomlEditor.Proofs.Highlight.WholeText
import TomlEditor.Proofs.Lex.Resumption
import TomlEditor.Proofs.Lex.Tiling
import TomlEditor.Proofs.Timing.Delivery
import TomlEditor.Timing.Debounced
import TomlEditor.Proofs.Text.Position
import TomlEditor.Proofs.Editor.Rejection
import TomlEditor.Proofs.Highlight.LineEnds
import TomlEditor.Proofs.Highlight.TextEdits
import TomlEditor.Proofs.Problem.Placement
import TomlEditor.Proofs.Editor.Countdown
import TomlEditor.Proofs.Editor.Pacing
import TomlEditor.Proofs.Lex.Escapes
import TomlEditor.Proofs.Lex.BlankFront
import TomlEditor.Proofs.Lex.QuoteSwap
import TomlEditor.Proofs.Lex.StringEnd
import TomlEditor.Proofs.Terminal.Dump
import TomlEditor.Proofs.Terminal.Independence
import TomlEditor.Proofs.Theme.Color
import TomlEditor.Proofs.Timing.Tickets
