import DecisionAlgebra.Logging.Filter

/-!
# Setting up a log

A configuration says which events to log, in which format, and whether to write a file as well. The
first valid one that is enabled stays; everything enabled after it is ignored.
-/

namespace DecisionAlgebra.Logging

/-- How events are written. -/
inductive Format where
  | pretty
  | json
  deriving DecidableEq, Repr

/-- The word for a format. -/
def Format.name : Format → String
  | .pretty => "pretty"
  | .json => "json"

/-- Why a log cannot be set up. -/
inductive SetupError where
  /-- A filter with a directive that cannot be used. -/
  | invalidFilter (problem : FilterError)
  /-- A word that is no format. -/
  | invalidFormat (value : String)
  /-- A file that cannot be opened. -/
  | fileUnavailable (path problem : String)
  deriving DecidableEq, Repr

namespace SetupError

/-- The code of a cause. -/
def code : SetupError → String
  | invalidFilter _ => "LOGGING_INVALID_FILTER"
  | invalidFormat _ => "LOGGING_INVALID_FORMAT"
  | fileUnavailable .. => "LOGGING_FILE_UNAVAILABLE"

/-- The full text of an error: its code in brackets, then the wording of the cause. -/
def message (e : SetupError) : String :=
  "[" ++ e.code ++ "] " ++
    match e with
    | invalidFilter problem => "Invalid log filter: " ++ problem.message
    | invalidFormat value =>
      "Invalid SYMOPT_LOG_FORMAT '" ++ value ++ "' (expected 'json' or 'pretty')"
    | fileUnavailable path problem => "Failed to open log file " ++ path ++ ": " ++ problem

end SetupError

/-- The format that a word names, in any case and without blanks around it. -/
def Format.ofName (s : String) : Except SetupError Format :=
  if lowercase s = Format.pretty.name then .ok .pretty
  else if lowercase s = Format.json.name then .ok .json
  else .error (.invalidFormat s)

/-- What to log and where; everything may be left open. -/
structure Config where
  level : Option String
  format : Option Format
  file : Option String
  deriving DecidableEq, Repr

namespace Config

/-- The configuration with some settings given as text. -/
def ofTexts (level format file : Option String) : Except SetupError Config := do
  let format ← format.mapM Format.ofName
  return ⟨level, format, file⟩

/-- The configuration set by the variables that a look-up knows. -/
def ofLookup (lookup : String → Option String) : Except SetupError Config :=
  ofTexts (lookup "SYMOPT_TRACE") (lookup "SYMOPT_LOG_FORMAT") (lookup "SYMOPT_LOG_FILE")

/-- Whether nothing is set. -/
def isEmpty (c : Config) : Bool := c.level.isNone && c.format.isNone && c.file.isNone

/-- Check the filter; when no level is set it is the one that lets nothing through. -/
def checkLevel (c : Config) : Attempt SetupError Unit :=
  (checkFilter (c.level.getD "off")).mapError (Failure.map .invalidFilter)

end Config

/-! ## Enabling -/

/-- The directories in which files can be opened. -/
abbrev Directories := List String

/-- The directory part of a path, without the last slash. -/
def directoryOf (path : String) : String :=
  String.ofList ((path.toList.reverse.dropWhile (· ≠ '/')).drop 1).reverse

/-- Open a log file; the problem is worded by the operating system. -/
def openFile (dirs : Directories) (path : String) : Except SetupError Unit :=
  if dirs.contains (directoryOf path) && !path.isEmpty then .ok ()
  else .error (.fileUnavailable path "No such file or directory (os error 2)")

/-- Install a log unless one is installed already, and say whether that was done. The filter is
checked before the file is opened. -/
def enable (dirs : Directories) (installed : Bool) (c : Config) : Attempt SetupError Bool :=
  if installed then .ok false
  else do
    c.checkLevel
    if let some path := c.file then Attempt.checked (openFile dirs path)
    return true

/-- Enable configurations one after the other, each given as settings or as the reason why there is
none. -/
def enableAll (dirs : Directories) :
    Bool → List (Except SetupError Config) → List (Attempt SetupError Bool)
  | _, [] => []
  | installed, c :: cs =>
    let answer := (Attempt.checked c).bind (enable dirs installed)
    answer :: enableAll dirs (installed || answer.toOption == some true) cs

end DecisionAlgebra.Logging
