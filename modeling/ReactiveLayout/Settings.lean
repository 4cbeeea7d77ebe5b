import ReactiveLayout.Scalar
import ReactiveLayout.Token

/-! The choices that a layout is built with, and which of them a solver can honour. -/
namespace ReactiveLayout

structure Settings (K : Type) where
  /-- The strength at which quantities are drawn to suggested values. -/
  editStrength : Strength
  registerRules : Bool
  /-- The distance that a value must move by to be reported; zero reports every move. -/
  changeTolerance : K

inductive SettingsFault (K : Type) where
  | requiredEditStrength
  | badTolerance (value : K)

/-- Errors of settings and of the documents that they are read from. -/
inductive ConfigError (K : Type) where
  | unreadable
  /-- The text is no TOML document, or not one of the expected form. -/
  | toml
  /-- The text is no YAML document, or not one of the expected form. -/
  | yaml
  | invalid (fault : SettingsFault K)

variable {K : Type} [Scalar K]

def SettingsFault.reason : SettingsFault K → String
  | requiredEditStrength => "edit_strength cannot be 'required'"
  | badTolerance value => "change_tolerance must be a non-negative number, got " ++ Scalar.text value

def ConfigError.message : ConfigError K → String
  | unreadable => "IO error"
  | toml => "TOML parse error"
  | yaml => "YAML parse error"
  | invalid fault => "Invalid configuration: " ++ fault.reason

namespace Settings

/-- Strong suggestions, registered rules, and every move reported. -/
def standard : Settings K := ⟨.strong, true, 0⟩

instance : Inhabited (Settings K) := ⟨standard⟩

def validate (s : Settings K) : Except (ConfigError K) Unit :=
  if s.editStrength = .required then .error (.invalid .requiredEditStrength)
  else if !Scalar.isFinite s.changeTolerance || decide (s.changeTolerance < 0) then
    .error (.invalid (.badTolerance s.changeTolerance))
  else .ok ()

end Settings
end ReactiveLayout
