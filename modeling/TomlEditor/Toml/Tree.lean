import TomlEditor.Toml.Written

/-!
# Tables of a TOML document

The names that a document has defined so far, as far as later statements may
depend on them: each is a value, a table or an array of tables, of which only
the last table can still change. A table is defined once, by its header or by
the dotted keys that lead through it; a table that so far only lies above
another one may still get a header of its own.
-/

namespace TomlEditor.Toml

/-- How a table came to be. -/
inductive TableKind
  /-- By its header. -/
  | defined
  /-- By the header of a table below it. -/
  | implied
  /-- By a dotted key that leads through it. -/
  | dotted
deriving DecidableEq, Repr

inductive Node
  | value (type : ValueType)
  | table (kind : TableKind) (entries : List (String × Node))
  /-- An array of tables, with the entries of its last table. -/
  | tables (last : List (String × Node))

/-- The names of a table with what they stand for. -/
abbrev Entries := List (String × Node)

namespace Entries

def find? (entries : Entries) (name : String) : Option Node :=
  List.lookup name entries

/-- Lets a name stand for something, in place of what it stood for. -/
def insert (entries : Entries) (name : String) (node : Node) : Entries :=
  entries.filter (fun entry => entry.1 != name) ++ [(name, node)]

/-! ## Keys and values -/

/-- Where keys are given values. -/
inductive Scope
  /-- In an inline table. -/
  | inline
  /-- Below the header of the table with the given names. -/
  | table (path : Path)
deriving DecidableEq, Repr

/-- The table that a second value for a key is reported for. -/
def Scope.table? : Scope → Option Path
  | inline => none
  | table path => some path

/-- Gives a name a value in a table that a dotted key has led to. Values that belong to a table
with dotted keys cannot be given in another way, nor others by dotted keys. -/
def addValue (scope : Scope) (kind : TableKind) (isDotted : Bool) (entries : Entries)
    (name : String) (type : ValueType) : Except Reason Entries :=
  if isDotted && kind != .dotted then .error (.duplicateKey name none)
  else if (entries.find? name).isSome then .error (.duplicateKey name scope.table?)
  else .ok (entries.insert name (.value type))

/-- Gives the name at the end of a path a value. The names before it lead through tables. -/
def assign (scope : Scope) (type : ValueType) (kind : TableKind) (entries : Entries)
    (done : Path) : Path → String → Except Reason Entries
  | [], name => entries.addValue scope kind (!done.isEmpty) name type
  | step :: path, name =>
    let passed := done ++ [step]
    match entries.find? step with
    | none => do
      let below ← assign scope type .dotted [] passed path name
      return entries.insert step (.table .dotted below)
    | some (.value found) =>
      if scope = .inline && found = .inlineTable then .error (.duplicateKey step none)
      else .error (.notATable passed found)
    | some (.table .defined _) => .error (.duplicateKey step none)
    | some (.table found below) => do
      let below ← assign scope type found below passed path name
      return entries.insert step (.table found below)
    | some (.tables last) => do
      let last ← assign scope type .defined last passed path name
      return entries.insert step (.tables last)

/-- Changes the entries of the table at a path that a header has opened. -/
def modify (change : Entries → Except Reason Entries) (entries : Entries) :
    Path → Except Reason Entries
  | [] => change entries
  | step :: path =>
    match entries.find? step with
    | some (.table kind below) => do
      return entries.insert step (.table kind (← modify change below path))
    | some (.tables last) => do
      return entries.insert step (.tables (← modify change last path))
    | _ => .ok entries

/-! ## Headers -/

/-- The table that a header opens in place of what its name stands for. -/
def openTable : Option Node → Option Node
  | none => some (.table .defined [])
  | some (.table .implied below) => some (.table .defined below)
  | some _ => none

/-- The array that a header in double brackets adds a table to. -/
def openArray : Option Node → Option Node
  | none => some (.tables [])
  | some (.tables _) => some (.tables [])
  | some _ => none

/-- Opens the table with the given names. Tables above it come into being where they are not
there yet. -/
def openAt (opening : Option Node → Option Node) (entries : Entries) (done : Path) :
    Path → Except Reason Entries
  | [] => .ok entries
  | [name] =>
    match opening (entries.find? name) with
    | some node => .ok (entries.insert name node)
    | none => .error (.duplicateKey (writtenName name) (some done))
  | step :: path =>
    let passed := done ++ [step]
    match entries.find? step with
    | none => do
      return entries.insert step (.table .implied (← openAt opening [] passed path))
    | some (.value found) => .error (.notATable passed found)
    | some (.table kind below) => do
      return entries.insert step (.table kind (← openAt opening below passed path))
    | some (.tables last) => do
      return entries.insert step (.tables (← openAt opening last passed path))

end Entries

end TomlEditor.Toml
