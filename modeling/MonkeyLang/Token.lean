/-!
Tokens of the language: their kinds, the two texts of a kind, and the reserved words.
-/

namespace MonkeyLang

/-- What sort of token a piece of source text is. -/
inductive Kind
  | illegal | eof
  | ident | int | string
  | assign | plus | minus | bang | asterisk | slash | lt | gt | eq | notEq
  | comma | semicolon | colon | lparen | rparen | lbrace | rbrace | lbracket | rbracket
  | kwFn | kwLet | kwTrue | kwFalse | kwIf | kwElse | kwReturn
  deriving DecidableEq, Repr, Inhabited

namespace Kind

def name : Kind → String
  | illegal => "ILLEGAL" | eof => "EOF"
  | ident => "IDENT" | int => "INT" | string => "STRING"
  | assign => "ASSIGN" | plus => "PLUS" | minus => "MINUS" | bang => "BANG"
  | asterisk => "ASTERISK" | slash => "SLASH" | lt => "LT" | gt => "GT"
  | eq => "EQ" | notEq => "NOT_EQ"
  | comma => "COMMA" | semicolon => "SEMICOLON" | colon => "COLON"
  | lparen => "LPAREN" | rparen => "RPAREN" | lbrace => "LBRACE" | rbrace => "RBRACE"
  | lbracket => "LBRACKET" | rbracket => "RBRACKET"
  | kwFn => "FUNCTION" | kwLet => "LET" | kwTrue => "TRUE" | kwFalse => "FALSE"
  | kwIf => "IF" | kwElse => "ELSE" | kwReturn => "RETURN"

/-- How a message shows a kind: operators and delimiters as they are spelled, others by name. -/
def display : Kind → String
  | assign => "=" | plus => "+" | minus => "-" | bang => "!"
  | asterisk => "*" | slash => "/" | lt => "<" | gt => ">" | eq => "==" | notEq => "!="
  | comma => "," | semicolon => ";" | colon => ":"
  | lparen => "(" | rparen => ")" | lbrace => "\x7b" | rbrace => "\x7d"
  | lbracket => "[" | rbracket => "]"
  | kind => kind.name

def ofWord : String → Kind
  | "fn" => kwFn
  | "let" => kwLet
  | "true" => kwTrue
  | "false" => kwFalse
  | "if" => kwIf
  | "else" => kwElse
  | "return" => kwReturn
  | _ => ident

/-- The kind of a character that is a token by itself and begins no longer one. -/
def ofSymbol? : Char → Option Kind
  | '+' => some plus
  | '-' => some minus
  | '*' => some asterisk
  | '/' => some slash
  | '<' => some lt
  | '>' => some gt
  | ',' => some comma
  | ';' => some semicolon
  | ':' => some colon
  | '(' => some lparen
  | ')' => some rparen
  | '{' => some lbrace
  | '}' => some rbrace
  | '[' => some lbracket
  | ']' => some rbracket
  | _ => none

end Kind

/-- A token: its kind and its literal, which for a string is the text between the quotes. -/
structure Token where
  kind : Kind
  literal : String
  deriving DecidableEq, Repr, Inhabited

def Token.eof : Token := ⟨.eof, ""⟩

end MonkeyLang
