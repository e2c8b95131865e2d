/-
  RECORD TEXT: a value written out with the names of its parts.

  This is the one-line form in which a reader inspects a value: a list in brackets, a name with
  its single argument in parentheses, a name with its named parts in braces.  The types of this
  library write themselves through these forms only, so nested values read alike.
-/

namespace ByteTokenizer.Text

/-- Items in brackets, a comma and a blank between them. -/
def bracketed (items : List String) : String :=
  "[" ++ ", ".intercalate items ++ "]"

/-- A name applied to one value. -/
def applied (name value : String) : String :=
  name ++ "(" ++ value ++ ")"

/-- A name with its named parts. -/
def record (name : String) (parts : List (String × String)) : String :=
  name ++ " \x7b " ++ ", ".intercalate (parts.map fun (label, value) => label ++ ": " ++ value)
    ++ " \x7d"

/-- Keys and their values on one line. -/
def mapping (entries : List (String × String)) : String :=
  "\x7b" ++ ", ".intercalate (entries.map fun (key, value) => key ++ ": " ++ value) ++ "\x7d"

/-- Keys and their values, each on an indented line of its own. -/
def mappingLines (entries : List (String × String)) : String :=
  "\x7b\n" ++ String.join (entries.map fun (key, value) => "    " ++ key ++ ": " ++ value ++ ",\n")
    ++ "\x7d"

/-- A value that may be missing. -/
def optional : Option String → String
  | none => "None"
  | some value => applied "Some" value

example : record "Pair" [("left", "1"), ("right", optional (some "2"))]
    = "Pair \x7b left: 1, right: Some(2) \x7d" := by
  cbv

end ByteTokenizer.Text
