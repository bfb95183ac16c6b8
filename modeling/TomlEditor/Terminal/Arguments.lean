import TomlEditor.Terminal.Files

/-!
# Arguments of the command line

The first argument names what to do, the others are files. Painting takes a
theme too, from a flag at any place among the files or else from the
environment; nothing else looks at the theme.
-/

namespace TomlEditor.Terminal

open Theme

/-- What a command line asks for. -/
inductive CommandLine
  | version
  | request (asked : Request)
  /-- The arguments cannot be used. -/
  | refused (reason : String)
deriving DecidableEq, Repr

/-- The theme flag and the files among some arguments. -/
structure Options where
  theme : Option String
  names : List String
deriving DecidableEq, Repr

namespace Options

/-- The options with one more file in front. -/
def addName (options : Options) (name : String) : Options :=
  { options with names := name :: options.names }

/-- The options with the theme flag in front, which may be given once. -/
def addTheme (options : Options) (theme : String) : Option Options :=
  if options.theme.isSome then none else some { options with theme := some theme }

/-- The value of a theme flag that is one argument. -/
def themeValue? (argument : String) : Option String :=
  let flag := "--theme="
  if flag.toList.isPrefixOf argument.toList then
    some (String.ofList (argument.toList.drop flag.length))
  else none

/-- Whether an argument is a flag and not a file. -/
def isFlag (argument : String) : Bool :=
  argument.toList.head? = some '-' && argument.length != 1

/-- Reads the arguments after the action. After `--` there are only files. -/
def ofArguments? : List String → Option Options
  | [] => some ⟨none, []⟩
  | "--" :: names => some ⟨none, names⟩
  | "--theme" :: value :: more => (ofArguments? more).bind (·.addTheme value)
  | argument :: more =>
    match themeValue? argument with
    | some value => (ofArguments? more).bind (·.addTheme value)
    | none => if isFlag argument then none else (ofArguments? more).map (·.addName argument)

end Options

namespace CommandLine

/-- What is said of arguments that do not make a request. -/
def unusable : CommandLine :=
  refused "unusable arguments"

/-- A request for an action on some files, of which there has to be one. None may be empty. -/
def ofNames (action : Action) (names : List String) : CommandLine :=
  if names.isEmpty || names.contains "" then unusable else request (.files action names)

/-- The request for painting files. The theme of the environment counts if no flag is given. -/
def ofHighlight (themeVariable : Option String) (options : Options) : CommandLine :=
  match options.theme.or themeVariable with
  | none => ofNames (.highlight .dark) options.names
  | some value =>
    match Appearance.parse value with
    | .ok appearance => ofNames (.highlight appearance) options.names
    | .error reason =>
      refused ("invalid value '" ++ value ++ "' for '--theme <THEME>': " ++ reason.message)

/-- The request for an action that takes no theme. -/
def ofPlain (action : Action) (options : Options) : CommandLine :=
  if options.theme.isSome then unusable else ofNames action options.names

/-- The files that a command line is about. -/
def names : CommandLine → List String
  | request asked => asked.names
  | _ => []

end CommandLine

/-- What the arguments ask for. -/
def Request.ofArguments (themeVariable : Option String) : List String → CommandLine
  | ["--version"] | ["-V"] => .version
  | action :: more =>
    match action, Options.ofArguments? more with
    | "tokens", some options => .ofPlain .tokens options
    | "check", some options => .ofPlain .check options
    | "highlight", some options => .ofHighlight themeVariable options
    | _, _ => .unusable
  | [] => .unusable

end TomlEditor.Terminal
