import EditScope.Declaration.Basic
import EditScope.Text.Blank

set_option autoImplicit false

namespace EditScope

structure OutlineSettings where
  defaultUnitName : String := "<default>"
  overloads : Overloads := .merge
  deriving DecidableEq, Repr

inductive OutlineSettingsError where
  | blankUnitName
  deriving DecidableEq, Repr

namespace OutlineSettings

def numbered : OutlineSettings := { overloads := .ordinal }

def validate (s : OutlineSettings) : Except OutlineSettingsError Unit :=
  if s.defaultUnitName.toList.all Text.isBlank then .error .blankUnitName else .ok ()

end OutlineSettings

def OutlineSettingsError.message : OutlineSettingsError → String
  | .blankUnitName => "Invalid configuration: default_unit_name must not be empty"

end EditScope
