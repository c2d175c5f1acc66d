import MonkeyLang.Token.Scan

/-!
The options of the command line.
-/

namespace MonkeyLang.CommandLine

structure Options where
  showTree : Bool
  verbose : Bool
  paths : List String

namespace Options

def initial : Options := ⟨false, false, []⟩

def addPath (options : Options) (path : String) : Options :=
  { options with paths := options.paths ++ [path] }

/-- Sets the options that single letters stand for. -/
def addLetters (options : Options) : List Char → Option Options
  | [] => some options
  | 'a' :: letters => { options with showTree := true }.addLetters letters
  | 'v' :: letters => { options with verbose := true }.addLetters letters
  | _ => none

/-- Sets the option that a word stands for, which may be cut short. -/
def addWord (options : Options) (word : List Char) : Option Options :=
  if word.isEmpty then none
  else if word.isPrefixOf "ast".toList then some { options with showTree := true }
  else if word.isPrefixOf "verbose".toList then some { options with verbose := true }
  else none

/-- Whether text behind a dash is a decimal number without a sign. -/
def isNumber (text : List Char) : Bool :=
  match text.dropWhile isDigit with
  | [] => !text.isEmpty
  | '.' :: fraction => !fraction.isEmpty && fraction.all isDigit
  | _ => false

/-- What an argument sets. One that begins with a dash but names no option is a path if it is a
negative number or has a blank in it. -/
def add (options : Options) (argument : String) : Option Options :=
  let pathInstead (text : List Char) : Option Options :=
    if isNumber text || text.contains ' ' then some (options.addPath argument) else none
  match argument.toList with
  | '-' :: '-' :: word => options.addWord word <|> pathInstead ('-' :: word)
  | '-' :: letter :: letters =>
    options.addLetters (letter :: letters) <|> pathInstead (letter :: letters)
  | _ => some (options.addPath argument)

/-- Reads arguments into options that are already known. Options may stand before and behind the
paths; behind a double dash there are only paths. Gives the first argument that is neither. -/
def extend (options : Options) : List String → Except String Options
  | [] => .ok options
  | argument :: others =>
    if argument = "--" then .ok (others.foldl addPath options)
    else match options.add argument with
      | some extended => extended.extend others
      | none => .error argument

def ofArguments (arguments : List String) : Except String Options := initial.extend arguments

end Options

def usageError (argument : String) : String :=
  "usage: monkey [-h] [-a] [-v] [paths ...]\nmonkey: error: unrecognized arguments: " ++ argument ++
    "\n"

end MonkeyLang.CommandLine
