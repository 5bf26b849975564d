/-
# Settings

What the environment decides: the locale of the messages, and how much is logged.
-/
import HypnoScript.Message
import HypnoScript.Text.Spelling
import HypnoScript.Text.UpperCase

namespace HypnoScript

/-- The settings as the environment has them; what is not set is none. -/
structure Settings where
  locale? : Option String := none
  logLevel? : Option String := none
  deriving DecidableEq, Repr

namespace Settings

/-- The variable that names the locale. -/
def localeVariable : String := "HYPNOLINT_LOCALE"

/-- The variable that names the log level. -/
def logLevelVariable : String := "HYPNOLINT_LOG_LEVEL"

/-- The settings in an environment. -/
def ofEnvironment (get : String → Option String) : Settings :=
  ⟨get localeVariable, get logLevelVariable⟩

/-- The locale. -/
def locale (s : Settings) : String := s.locale?.getD "en"

/-- The name of the log level, in capital letters. -/
def logLevel (s : Settings) : String := Text.upperCase (s.logLevel?.getD "WARNING")

/-- The words of the locale asked for, or of the one that is set if none is. -/
def wording (s : Settings) (requested : Option String) : Wording :=
  let locale := match requested with
    | some l => if l.isEmpty then s.locale else l
    | none => s.locale
  (Language.ofLocale locale).wording

/-- The log levels that there are. -/
def logLevels : List String :=
  ["CRITICAL", "FATAL", "ERROR", "WARN", "WARNING", "INFO", "DEBUG", "NOTSET"]

/-- A log level that there is not. -/
structure UnknownLevel where
  name : String
  deriving DecidableEq, Repr

/-- What is wrong with the level. -/
def UnknownLevel.message (e : UnknownLevel) : String := "Unknown level: " ++ Text.quoted e.name

/-- The log level, if there is such a level. -/
def checkLogLevel (s : Settings) : Except UnknownLevel String :=
  if logLevels.contains s.logLevel then .ok s.logLevel else .error ⟨s.logLevel⟩

end Settings
end HypnoScript
