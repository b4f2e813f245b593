import Multimethod.Value.Error

/-!
# Errors of sessions

What stops a session, besides the errors of evaluations: a settings file or a command line that is
not in order.
-/

namespace Multimethod

/-- What is wrong with a settings file. -/
inductive SettingsError where
  /-- The file is no settings document, or a value has a wrong type. -/
  | malformed (path : String)
  | emptyRootScope (path : String)
  deriving DecidableEq, Repr

def SettingsError.message : SettingsError → String
  | malformed path => "failed to parse " ++ path
  | emptyRootScope path => path ++ ": engine.root_scope_name must not be empty"

/-- What is wrong with a command line. -/
inductive CommandError where
  | missingValue (flag : String)
  | unknownLogLevel (spec : String)
  | unknownLogFormat (spec : String)
  | missingOperand (flag : String)
  | badFlag (flag : String)
  deriving DecidableEq, Repr

def CommandError.message : CommandError → String
  | missingValue flag => flag ++ " needs a value"
  | unknownLogLevel spec => "unknown log level: " ++ spec
  | unknownLogFormat spec => "unknown log format: " ++ spec
  | missingOperand flag => flag ++ " needs an operand"
  | badFlag flag => "bad flag: " ++ flag

/-- What stops a session. -/
inductive SessionError where
  | runtime (error : RuntimeError)
  | settings (error : SettingsError)
  | command (error : CommandError)

def SessionError.report : SessionError → String
  | runtime error => error.report
  | settings error => "Config error: " ++ error.message
  | command error => "Invalid command: " ++ error.message

end Multimethod
