import CommandGrammar.Captures
import CommandGrammar.EnvFile
import CommandGrammar.FilePath
import CommandGrammar.Settings.Integer
import CommandGrammar.Sinks

/-!
# Settings

Settings come from three sources: overrides by the caller, the variables of the environment, and those of a
file. The first source that names a setting gives its value, and a setting that no source names has a
default. The names of variables are compared in small letters.

All settings are checked, and all defects are found (`resolve`).
-/

namespace CommandGrammar

/-- The limits of a parser, the table to read, and how to log. -/
structure Settings where
  captureCapacity : Int := Captures.defaultCapacity
  maxInputLength : Int := 4096
  grammarPath : Option FilePath := none
  logLevel : String := Sinks.defaultLevel
  logProfile : String := Sinks.defaultProfile
  defaultCapacity_le : Captures.defaultCapacity ≤ captureCapacity := by decide
  maxInputLength_pos : 0 < maxInputLength := by decide
  deriving DecidableEq, Repr

namespace Settings

open Document

/-- Where settings come from, in the order in which they are asked. -/
structure Sources where
  overrides : List (String × Value) := []
  environment : List (String × String) := []
  envFile : Option String := none

namespace Sources

/-- What stands in front of the name of a setting in the name of its variable. -/
def variableStem : String := "cmdlang_"

/-- The value of the last of some variables with a name in small letters. -/
def lastNamed? {α : Type} (entries : List (String × α)) (name : String) : Option α :=
  (entries.reverse.find? fun v => Text.lower v.1.toList = name.toList).map Prod.snd

/-- The statements of the file. -/
def statements (s : Sources) : List EnvFile.Statement := (s.envFile.map EnvFile.statements).getD []

/-- The variables of the file. -/
def fileVariables (s : Sources) : List (String × Option String) :=
  (EnvFile.resolve (s.environment.lookup ·) (EnvFile.bindings s.statements)).entries

/-- The value that the sources give to a setting. -/
def value? (s : Sources) (setting : String) : Option Value :=
  let name := variableStem ++ setting
  s.overrides.lookup setting
    <|> (lastNamed? s.environment name).map Value.text
    <|> ((lastNamed? s.fileVariables name).join).map Value.text

end Sources

/-- A path, or nothing. -/
def checkPath? : Value → Checked (Option FilePath)
  | .scalar .null => .ok none
  | .scalar (.text s) => .ok (some (.ofString s))
  | _ => .defect .notPath

/-- A text. -/
def checkText : Value → Checked String
  | .scalar (.text s) => .ok s
  | _ => .defect .notText

/-- One setting: its default, or the check of the value that the sources give to it. -/
def checkSetting {α : Type} (s : Sources) (setting : String) (default : α)
    (check : Value → Checked α) : Checked α :=
  ((s.value? setting).elim (.ok default) check).under (.name setting)

/-- Settings from values that are within their limits. -/
def ofValues (capacity : { i : Int // Captures.defaultCapacity ≤ i }) (length : { i : Int // 0 < i })
    (path : Option FilePath) (level profile : String) : Settings where
  captureCapacity := capacity.1
  maxInputLength := length.1
  grammarPath := path
  logLevel := level
  logProfile := profile
  defaultCapacity_le := capacity.2
  maxInputLength_pos := length.2

/-- The settings that the sources give, or everything that is wrong with them. -/
def resolve (s : Sources) : Checked Settings :=
  let d : Settings := {}
  ofValues
    <$> checkSetting s "capture_capacity" ⟨d.captureCapacity, d.defaultCapacity_le⟩
      (checkAtLeast Captures.defaultCapacity)
    <*> checkSetting s "max_input_length" ⟨d.maxInputLength, d.maxInputLength_pos⟩ (checkAbove 0)
    <*> checkSetting s "grammar_path" d.grammarPath checkPath?
    <*> checkSetting s "log_level" d.logLevel checkText
    <*> checkSetting s "log_profile" d.logProfile checkText

/-- What settings that are rejected are called. -/
def subject : String := "Settings"

/-- The first line of the wording of defects. -/
def rejectedMessage (defects : List (Defect DefectKind)) : String :=
  defectCount defects.length subject

end Settings

/-- Why settings cannot be put into effect. -/
inductive SettingsError where
  | rejected (defects : List (Defect Settings.DefectKind))
  | unknownLevel (level : String)
  deriving DecidableEq, Repr

/-- The first line of the wording of a settings error. -/
def SettingsError.message : SettingsError → String
  | .rejected defects => Settings.rejectedMessage defects
  | .unknownLevel level => Sinks.unknownLevelMessage level

/-- The settings that the sources give, with the sinks that they ask for. -/
def Settings.configure (s : Settings.Sources) (sinks : Sinks) : Sinks × Except SettingsError Settings :=
  match resolve s with
  | .rejected defects => (sinks, .error (.rejected defects))
  | .ok settings =>
    match sinks.configure settings.logLevel settings.logProfile with
    | (sinks, .ok ()) => (sinks, .ok settings)
    | (sinks, .error level) => (sinks, .error (.unknownLevel level))

end CommandGrammar
