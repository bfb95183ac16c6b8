import TomlEditor.Text.Combining
import TomlEditor.Text.Unassigned

/-!
# Characters that are not shown as they are

Control characters, format characters, spaces and separators other than the
plain space, private use and unassigned code points have no shape of their own,
and a combining character changes the one before it. The ranges are those of the
Unicode general categories, in order.
-/

namespace TomlEditor.Text

/-- Characters of the category `Cc`. -/
def controlRanges : List CodeRange :=
  [(0x0000, 0x001F), (0x007F, 0x009F)]

/-- Characters of the category `Cf`. -/
def formatRanges : List CodeRange :=
  [(0x00AD, 0x00AD), (0x0600, 0x0605), (0x061C, 0x061C), (0x06DD, 0x06DD), (0x070F, 0x070F),
   (0x0890, 0x0891), (0x08E2, 0x08E2), (0x180E, 0x180E), (0x200B, 0x200F), (0x202A, 0x202E),
   (0x2060, 0x2064), (0x2066, 0x206F), (0xFEFF, 0xFEFF), (0xFFF9, 0xFFFB), (0x110BD, 0x110BD),
   (0x110CD, 0x110CD), (0x13430, 0x1343F), (0x1BCA0, 0x1BCA3), (0x1D173, 0x1D17A),
   (0xE0001, 0xE0001), (0xE0020, 0xE007F)]

/-- Characters of the categories `Zs`, `Zl` and `Zp` without the plain space. -/
def separatorRanges : List CodeRange :=
  [(0x00A0, 0x00A0), (0x1680, 0x1680), (0x2000, 0x200A), (0x2028, 0x2029), (0x202F, 0x202F),
   (0x205F, 0x205F), (0x3000, 0x3000)]

/-- Characters of the category `Co`. -/
def privateUseRanges : List CodeRange :=
  [(0xE000, 0xF8FF), (0xF0000, 0xFFFFD), (0x100000, 0x10FFFD)]

/-- Whether a character cannot be shown as it is. In ASCII these are the control characters, for
which the tables need not be searched. -/
def isUnprintable (c : Char) : Bool :=
  if c ≤ '\x7f' then c < ' ' || c = '\x7f'
  else
    [controlRanges, formatRanges, separatorRanges, privateUseRanges, combiningRanges,
      unassignedRanges].any (inRanges · c)

end TomlEditor.Text
