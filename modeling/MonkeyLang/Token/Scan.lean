import MonkeyLang.Token

/-!
Cutting text into tokens. `Token.next` takes the longest token at the front of a text;
`Token.scan` lists all tokens of a text and closes the list with the end token.
-/

namespace MonkeyLang

/-- Blanks separate tokens and are otherwise skipped. -/
def isBlank (c : Char) : Bool := c == ' ' || c == '\t' || c == '\n' || c == '\r'

/-- Words consist of the ASCII letters and the underscore. -/
def isLetter (c : Char) : Bool := ('a' ≤ c && c ≤ 'z') || ('A' ≤ c && c ≤ 'Z') || c == '_'

/-- Numbers consist of the ASCII digits. -/
def isDigit (c : Char) : Bool := '0' ≤ c && c ≤ '9'

namespace Token

/-- The token whose longer spelling is `first` followed by `=`. -/
def withEqualSign (short long : Token) : List Char → Token × List Char
  | '=' :: rest => (long, rest)
  | rest => (short, rest)

/-- The token that begins with the character `first`, which is not blank, and the text behind it.
A string runs to the next double quote, or to the end of the text if there is none. -/
def lexeme (first : Char) (rest : List Char) : Token × List Char :=
  if first == '=' then withEqualSign ⟨.assign, "="⟩ ⟨.eq, "=="⟩ rest
  else if first == '!' then withEqualSign ⟨.bang, "!"⟩ ⟨.notEq, "!="⟩ rest
  else match Kind.ofSymbol? first with
    | some kind => (⟨kind, first.toString⟩, rest)
    | none =>
      if first == '"' then
        (⟨.string, String.ofList (rest.takeWhile (· != '"'))⟩, (rest.dropWhile (· != '"')).drop 1)
      else if isLetter first then
        let word := String.ofList (first :: rest.takeWhile isLetter)
        (⟨Kind.ofWord word, word⟩, rest.dropWhile isLetter)
      else if isDigit first then
        (⟨.int, String.ofList (first :: rest.takeWhile isDigit)⟩, rest.dropWhile isDigit)
      else (⟨.illegal, first.toString⟩, rest)

/-- The first token of a text and the text behind it. At the end this is `Token.eof`, for ever. -/
def next (text : List Char) : Token × List Char :=
  match text.dropWhile isBlank with
  | [] => (eof, [])
  | first :: rest => lexeme first rest

/-- The results of `n` calls of `next`, each going on where the one before it stopped. -/
def nexts : Nat → List Char → List Token
  | 0, _ => []
  | n + 1, text => (next text).1 :: nexts n (next text).2

/-- The tokens before the end of a text, at most `bound` of them. -/
def takeTokens : Nat → List Char → List Token
  | 0, _ => []
  | bound + 1, text =>
    match next text with
    | (⟨.eof, _⟩, _) => []
    | (token, rest) => token :: takeTokens bound rest

/-- The tokens before the end of a text. A token takes at least one character, so there are no
more of them than characters. -/
def ofText (text : String) : List Token := takeTokens text.toList.length text.toList

def scan (text : String) : List Token := ofText text ++ [eof]

end Token

end MonkeyLang
