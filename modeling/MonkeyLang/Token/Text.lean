import MonkeyLang.Text.Quoted
import MonkeyLang.Token

/-!
The text in which a token is shown.
-/

namespace MonkeyLang

/-- A token as the name of its kind and its quoted literal. -/
def Token.text (token : Token) : String :=
  "<" ++ token.kind.name ++ ": " ++ quoted token.literal ++ ">"

end MonkeyLang
