import MonkeyLang.Reader.Expression
import MonkeyLang.Token.Scan

/-!
Reading whole programs. A statement that cannot be read is left out and leaves its cause.
-/

namespace MonkeyLang

/-- The statements that could be read from a text, and the causes of the others in the order in
which reading met them. -/
structure Parsed where
  statements : List Node
  errors : List ParseError

namespace Parsed

def program (parsed : Parsed) : Node := .program parsed.statements

/-- The statements if none was dropped, and otherwise the causes. -/
def toExcept (parsed : Parsed) : Except (List ParseError) (List Node) :=
  if parsed.errors.isEmpty then .ok parsed.statements else .error parsed.errors

end Parsed

/-- Reads a program from its tokens. Reading statements up to the end always gives a result. -/
def parseTokens (tokens : List Token) : Parsed :=
  let bound := tokens.length
  let reading := Reader.statementsUntil .eof (Reader.statement (Reader.expr bound)) bound tokens
  ⟨reading.outcome.toOption.getD [], reading.dropped⟩

def parse (text : String) : Parsed := parseTokens (Token.ofText text)

end MonkeyLang
