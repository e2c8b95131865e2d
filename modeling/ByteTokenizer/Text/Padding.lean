/-
  PADDING: fitting a text into a column of a listing.

  The text is first cut to the asked number of characters, then filled up to the width.  When
  the filler of a centred text cannot be split evenly, the odd character goes to the right.  A
  text that is already wide enough is never cut by the width alone.
-/

namespace ByteTokenizer.Text

/-- On which side of its column a text stands. -/
inductive Align where
  | left
  | right
  | centre
deriving DecidableEq

/-- How a text is fitted into a column. -/
structure Padding where
  /-- The least number of characters to write. -/
  width : Nat := 0
  /-- Where the text stands among the filler. -/
  align : Align := .left
  /-- The character that fills up the width. -/
  fill : Char := ' '
  /-- The most characters of the text to keep. -/
  limit : Option Nat := none
deriving DecidableEq

namespace Padding

/-- How much of the missing width goes before the text. -/
def leading (p : Padding) (missing : Nat) : Nat :=
  match p.align with
  | .left => 0
  | .right => missing
  | .centre => missing / 2

/-- The text, cut and filled up. -/
def fit (p : Padding) (text : String) : String :=
  let kept := match p.limit with
    | none => text.toList
    | some limit => text.toList.take limit
  let missing := p.width - kept.length
  let before := p.leading missing
  String.ofList (List.replicate before p.fill ++ kept ++ List.replicate (missing - before) p.fill)

end Padding

example : ({ width := 8, align := .centre, fill := '*' } : Padding).fit "abc" = "**abc***" := by
  cbv

example : ({ width := 4, align := .right, limit := some 2 } : Padding).fit "abc" = "  ab" := by
  cbv

end ByteTokenizer.Text
