import TomlEditor.Theme.Palette
import TomlEditor.Token.Kind

/-!
# Styles of tokens

A style is a foreground color and a weight. Each theme gives every kind of
token a style, made of the colors of its palette.
-/

namespace TomlEditor.Theme

structure Style where
  foreground : Color
  bold : Bool
deriving DecidableEq, Repr

namespace Style

/-- The escape sequence with which a terminal changes to a style. -/
def ansi (style : Style) : String :=
  if style.bold then "\x1b[1m" ++ style.foreground.ansi else style.foreground.ansi

/-- The escape sequence with which a terminal goes back to its own style. -/
def reset : String :=
  "\x1b[0m"

end Style

/-- The color of a kind of token. -/
def Palette.colorOf (palette : Palette) : Token.Kind → Color
  | .comment => palette.muted
  | .tableHeader | .arrayTableHeader => palette.header
  | .key => palette.key
  | .stringLiteral => palette.string
  | .stringEscape | .integer | .float => palette.primary
  | .stringEscapeInvalid => palette.error
  | .boolean => palette.boolean
  | .date | .dateTime | .dateTimeTz => palette.date
  | .delimiter | .whitespace | .unknown => palette.foreground

/-- The style of a kind of token. Headers are bold. -/
def styleOf (kind : Token.Kind) (appearance : Appearance) : Style where
  foreground := (Palette.ofAppearance appearance).colorOf kind
  bold := kind == .tableHeader || kind == .arrayTableHeader

/-- Every kind of token with its style. -/
def rules (appearance : Appearance) : List (Token.Kind × Style) :=
  Token.Kind.all.map fun kind => (kind, styleOf kind appearance)

end TomlEditor.Theme
