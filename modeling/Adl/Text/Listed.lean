/-!
# Listed — lists of texts as one text
-/

namespace Adl.Text

/-- Texts separated by commas. -/
def listed (items : List String) : String := ", ".intercalate items

/-- Texts between angle brackets, or nothing if there are none. -/
def angled (items : List String) : String :=
  if items.isEmpty then "" else "<" ++ listed items ++ ">"

end Adl.Text
