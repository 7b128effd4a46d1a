import WindowedMetrics.Text.Shortest
import WindowedMetrics.Text.Visible

/-!
# Diagnostic texts

`describe` gives the one-line text of a value that is meant for a reader of logs: records as
`Name` with their fields in braces, lists in brackets, strings quoted.
-/

namespace WindowedMetrics

/-- Types whose values have a diagnostic text. -/
class Described (α : Type) where
  describe : α → String

export Described (describe)

namespace Text

/-- A record: its name, then label and text of each field. -/
def record (name : String) (fields : List (String × String)) : String :=
  if fields.isEmpty then name
  else name ++ " \x7b " ++ ", ".intercalate (fields.map fun f => f.1 ++ ": " ++ f.2) ++ " \x7d"

/-- Texts in brackets, separated by commas. -/
def bracketed (items : List String) : String := "[" ++ ", ".intercalate items ++ "]"

/-- A name with one text in parentheses. -/
def applied (name argument : String) : String := name ++ "(" ++ argument ++ ")"

/-- A character as it stands inside a quoted text.  Quote, backslash and characters without a shape of
their own are escaped, all others stand for themselves. -/
def escape (c : Char) : String :=
  if c = '"' then "\\\""
  else if c = '\\' then "\\\\"
  else if c = '\n' then "\\n"
  else if c = '\r' then "\\r"
  else if c = '\t' then "\\t"
  else if c = Char.ofNat 0 then "\\0"
  else if isShapeless c then
    "\\u\x7b" ++ String.ofList (Nat.toDigits 16 c.toNat) ++ "\x7d"
  else String.singleton c

/-- A text between double quotes. -/
def quoted (s : String) : String := "\"" ++ String.join (s.toList.map escape) ++ "\""

end Text

instance : Described Nat := ⟨toString⟩

instance : Described Int := ⟨toString⟩

instance : Described Int64 := ⟨fun n => toString n.toInt⟩

instance : Described Bool := ⟨toString⟩

instance : Described String := ⟨Text.quoted⟩

instance : Described Float := ⟨Decimal.shortest⟩

instance {α : Type} [Described α] : Described (List α) := ⟨fun l => Text.bracketed (l.map describe)⟩

end WindowedMetrics
