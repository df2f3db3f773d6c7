import Tableau.Token

/-!
# Token listings

A listing has one line per token: its line number, the name of its kind, and its text between
quotation marks. The text stands as it is, so a listing can be read back as long as no text has a
line feed in it.
-/

namespace Tableau.Token

/-- The line of a listing for one token. -/
def listingLine (token : Token) : String :=
  token.line.repr ++ " " ++ token.kind.label ++ " \"" ++ token.text ++ "\"\n"

/-- One line per token. -/
def listing (tokens : List Token) : String := String.join (tokens.map listingLine)

end Tableau.Token
