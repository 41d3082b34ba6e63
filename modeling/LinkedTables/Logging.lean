/-!
# Where the log goes

What a program that wants to see the events of its filters chooses: from which level on, where
to, and in which layout.
-/

namespace LinkedTables

/-- Where log lines are written. -/
inductive LogOutput where
  | stdout
  | file (path : String)
  | both (path : String)
deriving DecidableEq, Repr

/-- How log lines are laid out. -/
inductive LogFormat where
  | pretty
  | compact
deriving DecidableEq, Repr

/-- The choices for a log. -/
structure Logging where
  level : String
  output : LogOutput
  format : LogFormat
deriving DecidableEq, Repr

namespace Logging

/-- A log of the given level on the standard output. -/
def atLevel (level : String) : Logging := ⟨level, .stdout, .pretty⟩

/-- What happens on the whole. -/
def info : Logging := atLevel "info"

/-- Every stage of a filter too. -/
def debug : Logging := atLevel "debug"

/-- Every join too. -/
def trace : Logging := atLevel "trace"

/-- Write to a file only. -/
def withFile (l : Logging) (path : String) : Logging := { l with output := .file path }

/-- Write to a file and to the standard output. -/
def withBoth (l : Logging) (path : String) : Logging := { l with output := .both path }

/-- Choose the layout. -/
def withFormat (l : Logging) (format : LogFormat) : Logging := { l with format := format }

/-- Choose the level. -/
def withLevel (l : Logging) (level : String) : Logging := { l with level := level }

end Logging

end LinkedTables
