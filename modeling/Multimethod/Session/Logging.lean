/-!
# Log settings

The format and the level of the log may be set on the command line, in the environment and in the
settings file. The first source that sets one of them wins; texts that name neither a format nor a
level set nothing.
-/

namespace Multimethod

/-- How log lines are written. -/
inductive LogFormat where
  | text
  | json
  deriving DecidableEq, Repr

namespace LogFormat

/-- The format that a text names; ASCII capitals count as small letters. -/
def ofText? (spec : String) : Option LogFormat :=
  match spec.map Char.toLower with
  | "text" => some text
  | "plain" => some text
  | "json" => some json
  | _ => none

def label : LogFormat → String
  | text => "text"
  | json => "json"

end LogFormat

/-- How much is logged. -/
inductive LogLevel where
  | error
  | warn
  | info
  | debug
  | trace
  deriving DecidableEq, Repr

namespace LogLevel

/-- The level that a text names; ASCII capitals count as small letters. -/
def ofText? (spec : String) : Option LogLevel :=
  match spec.map Char.toLower with
  | "error" => some error
  | "err" => some error
  | "warn" => some warn
  | "warning" => some warn
  | "info" => some info
  | "debug" => some debug
  | "trace" => some trace
  | "verbose" => some trace
  | _ => none

def label : LogLevel → String
  | error => "error"
  | warn => "warn"
  | info => "info"
  | debug => "debug"
  | trace => "trace"

/-- The level as events bear it. -/
def eventLabel : LogLevel → String
  | error => "ERROR"
  | warn => "WARN"
  | info => "INFO"
  | debug => "DEBUG"
  | trace => "TRACE"

end LogLevel

/-- What one source sets, or several together. -/
structure LogSettings where
  format : Option LogFormat := none
  level : Option LogLevel := none
  deriving DecidableEq, Repr

namespace LogSettings

/-- What two texts set. -/
def ofTexts (format level : Option String) : LogSettings :=
  { format := format.bind LogFormat.ofText?, level := level.bind LogLevel.ofText? }

/-- These settings, with those of a later source where these set nothing. -/
def or (settings later : LogSettings) : LogSettings :=
  { format := settings.format <|> later.format, level := settings.level <|> later.level }

/-- The format, text if none is set. -/
def formatOrDefault (settings : LogSettings) : LogFormat := settings.format.getD .text

/-- The level, warnings if none is set. -/
def levelOrDefault (settings : LogSettings) : LogLevel := settings.level.getD .warn

end LogSettings

end Multimethod
