/-!
Text inside markup: the characters that would begin a tag or an entity are written as entities.
-/

namespace Marginalia.Text

/-- The entity of a character that cannot stand for itself in running text. -/
def escapeChar (c : Char) : List Char :=
  if c = '&' then "&amp;".toList
  else if c = '<' then "&lt;".toList
  else if c = '>' then "&gt;".toList
  else [c]

/-- A text as it stands between tags. -/
def escapeChars (cs : List Char) : List Char := cs.flatMap escapeChar

/-- Inside a quoted attribute value the quote is an entity as well. -/
def escapeAttributeChar (c : Char) : List Char :=
  if c = '"' then "&quot;".toList else escapeChar c

end Marginalia.Text
