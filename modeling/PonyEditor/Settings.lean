/-!
# Settings

What the user can set, with the values that are allowed.
-/

namespace PonyEditor

/-- The settings of an editor session. -/
structure Settings where
  /-- The spaces of one indent level. -/
  indentSize : Nat := 2
  deriving DecidableEq, Repr

/-- Why settings are refused. -/
inductive SettingsError where
  | indentSize (size max : Nat)
  deriving DecidableEq, Repr

/-- The reason in words. -/
def SettingsError.message : SettingsError → String
  | indentSize size max => s!"indent size must be between 1 and {max}, got {size}"

namespace Settings

/-- The greatest indent size. -/
def maxIndentSize : Nat := 16

/-- Accepts settings whose values are all allowed. -/
def check (s : Settings) : Except SettingsError Unit :=
  if 1 ≤ s.indentSize ∧ s.indentSize ≤ maxIndentSize then .ok ()
  else .error (.indentSize s.indentSize maxIndentSize)

end Settings
end PonyEditor
