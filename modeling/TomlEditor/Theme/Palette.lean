import TomlEditor.Theme.Color

/-!
# Appearances and palettes

An editor looks light or dark, and has a palette of colors for each.
-/

namespace TomlEditor.Theme

/-- Which of the two themes is active. -/
inductive Appearance
  | light
  | dark
deriving DecidableEq, Repr

namespace Appearance

def name : Appearance → String
  | light => "light"
  | dark => "dark"

/-- The name under which a theme is registered. -/
def themeName : Appearance → String
  | light => "sithra-light"
  | dark => "sithra-dark"

/-- The appearance that a text names, with letters in either case. -/
def parse (text : String) : Except Error Appearance :=
  if text.toLower = light.name then .ok light
  else if text.toLower = dark.name then .ok dark
  else .error (.invalidThemeMode text)

end Appearance

structure Palette where
  background : Color
  foreground : Color
  lineHighlight : Color
  cursor : Color
  selection : Color
  error : Color
  muted : Color
  primary : Color
  header : Color
  key : Color
  string : Color
  boolean : Color
  date : Color
deriving DecidableEq, Repr

namespace Palette

def light : Palette where
  background := ⟨0xf0, 0xf2, 0xf5⟩
  foreground := ⟨0x4c, 0x55, 0x66⟩
  lineHighlight := ⟨0xe5, 0xe7, 0xeb⟩
  cursor := ⟨0x63, 0x66, 0xf1⟩
  selection := ⟨0xe0, 0xe7, 0xff⟩
  error := ⟨0xef, 0x44, 0x44⟩
  muted := ⟨0x6e, 0x74, 0x87⟩
  primary := ⟨0x8b, 0x5c, 0xf6⟩
  header := ⟨0x76, 0x62, 0xb5⟩
  key := ⟨0x4b, 0x53, 0x83⟩
  string := ⟨0x63, 0x66, 0xf1⟩
  boolean := ⟨0xec, 0x48, 0x99⟩
  date := ⟨0x0e, 0xa5, 0xe9⟩

def dark : Palette where
  background := ⟨0x1e, 0x1e, 0x2e⟩
  foreground := ⟨0xe6, 0xe9, 0xef⟩
  lineHighlight := ⟨0x31, 0x32, 0x44⟩
  cursor := ⟨0xf5, 0xe0, 0xdc⟩
  selection := ⟨0x58, 0x5b, 0x70⟩
  error := ⟨0xf3, 0x8b, 0xa8⟩
  muted := ⟨0x8e, 0x9a, 0xc0⟩
  primary := ⟨0xc4, 0xb5, 0xfd⟩
  header := ⟨0xbc, 0xa8, 0xff⟩
  key := ⟨0xd5, 0xe3, 0xff⟩
  string := ⟨0xa5, 0xb4, 0xfc⟩
  boolean := ⟨0xfb, 0x71, 0x85⟩
  date := ⟨0x38, 0xbd, 0xf8⟩

def ofAppearance : Appearance → Palette
  | .light => light
  | .dark => dark

end Palette

end TomlEditor.Theme
