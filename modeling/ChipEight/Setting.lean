/-
What is given for a setting.

A setting asks for a number or for a name, and may be given something else, or nothing.  A
complaint repeats what was given or tells of what kind it was.
-/
import ChipEight.Text.Quoted

namespace ChipEight

/-- What is given for a setting. -/
inductive Setting
  | number (n : Int)
  | text (s : String)
  /-- the setting is said to be none -/
  | nothing
  /-- the value of the setting is left out -/
  | blank
  deriving DecidableEq, Repr

namespace Setting

/-- What is given, as it is repeated in a complaint. -/
def shown : Setting → String
  | number n => toString n
  | text s => Text.quoted s
  | nothing => "None"
  | blank => "[]"

/-- The kind of what is given. -/
def kind : Setting → String
  | number _ => "int"
  | text _ => "str"
  | nothing => "NoneType"
  | blank => "list"

end Setting

end ChipEight
