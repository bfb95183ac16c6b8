import TomlEditor.Token.Kind

/-!
# Tokens

A token is a piece of a text with its kind and its place, counted in bytes of
the UTF-8 form of the text that was lexed.
-/

namespace TomlEditor

/-- A range of byte offsets, the first in and the last out. -/
structure Span where
  start : Nat
  stop : Nat
deriving DecidableEq, Repr

namespace Span

def length (span : Span) : Nat :=
  span.stop - span.start

def isEmpty (span : Span) : Bool :=
  span.start == span.stop

end Span

structure Token where
  kind : Token.Kind
  text : String
  span : Span
deriving DecidableEq, Repr

end TomlEditor
