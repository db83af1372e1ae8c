/-!
# Scripts

A script is a small program in the notation of command shells: commands separated by semicolons,
line ends, `&&` and `||`, each a list of words and redirections. A word is made of literal text
and of references to the arguments of the script, which are filled in when the command is run. A
hash mark in front of a word begins a comment.
-/

namespace Core65C02.Script

/-- What a reference in a word stands for. -/
inductive Reference
  /-- The argument with a number; zero is the name of the script. -/
  | argument (index : Nat)
  /-- The number of arguments. -/
  | argumentCount
  /-- All arguments. -/
  | allArguments
  /-- How the last command ended. -/
  | lastStatus
  /-- The number of the running process. -/
  | process
deriving DecidableEq

/-- A piece of a word. -/
inductive Piece
  | literal (c : Char)
  /-- A reference, and whether it stands between quotes. -/
  | reference (target : Reference) (quoted : Bool)
deriving DecidableEq

/-- A word as it is written. A word that has quotes is there even if nothing is in it. -/
structure Word where
  /-- The pieces of the word. -/
  pieces : List Piece := []
  /-- Whether the word has quotes. -/
  quoted : Bool := false
deriving DecidableEq

/-- One of the two outputs of a command. -/
inductive Channel
  | output | errors
deriving DecidableEq

/-- A part of a script between blanks. -/
inductive Token
  | word (w : Word)
  /-- The end of a command. -/
  | separator
  /-- What follows runs only if the last command succeeded. -/
  | andThen
  /-- What follows runs only if the last command failed. -/
  | orElse
  /-- The next word is the file that takes an output; `append` keeps what is in it. -/
  | toFile (channel : Channel) (append : Bool)
  /-- An output goes where the other one goes. -/
  | toChannel (channel target : Channel)
deriving DecidableEq

/-- Where the reader of a script stands: within which quotes. -/
inductive Quoting
  | plain | single | double
deriving DecidableEq

/-- What a dollar sign refers to, with the rest of the text. -/
def readReference : List Char → Option (Reference × List Char)
  | '#' :: rest => some (.argumentCount, rest)
  | '$' :: rest => some (.process, rest)
  | '?' :: rest => some (.lastStatus, rest)
  | '@' :: rest | '*' :: rest => some (.allArguments, rest)
  | '\x7b' :: c :: '\x7d' :: rest =>
    if '0' ≤ c ∧ c ≤ '9' then some (.argument (c.toNat - 48), rest) else none
  | c :: rest => if '0' ≤ c ∧ c ≤ '9' then some (.argument (c.toNat - 48), rest) else none
  | [] => none

/-- Adds a piece to a word that may not have been begun. -/
def extend (word : Option Word) (piece : Piece) : Option Word :=
  let w := word.getD {}
  some { w with pieces := w.pieces ++ [piece] }

/-- Marks a word as quoted; it may not have been begun. -/
def markQuoted (word : Option Word) : Option Word := some { word.getD {} with quoted := true }

/-- Closes a word, if one was begun. -/
def close (tokens : List Token) : Option Word → List Token
  | some w => .word w :: tokens
  | none => tokens

/-- Reads tokens; those read so far are in reverse order. -/
def readTokens : (fuel : Nat) → Quoting → List Token → Option Word → List Char → List Token
  | 0, _, tokens, word, _ => (close tokens word).reverse
  | _ + 1, _, tokens, word, [] => (close tokens word).reverse
  | fuel + 1, .single, tokens, word, c :: rest =>
    if c = '\'' then readTokens fuel .plain tokens word rest
    else readTokens fuel .single tokens (extend word (.literal c)) rest
  | fuel + 1, .double, tokens, word, c :: rest =>
    match c, rest with
    | '"', rest => readTokens fuel .plain tokens word rest
    | '\\', d :: later =>
      if d = '"' ∨ d = '\\' ∨ d = '$' then
        readTokens fuel .double tokens (extend word (.literal d)) later
      else readTokens fuel .double tokens (extend word (.literal '\\')) rest
    | '$', rest =>
      match readReference rest with
      | some (target, later) =>
        readTokens fuel .double tokens (extend word (.reference target true)) later
      | none => readTokens fuel .double tokens (extend word (.literal '$')) rest
    | c, rest => readTokens fuel .double tokens (extend word (.literal c)) rest
  | fuel + 1, .plain, tokens, word, c :: rest =>
    let operator (token : Token) (rest : List Char) : List Token :=
      readTokens fuel .plain (token :: close tokens word) none rest
    match c, rest with
    | '\'', rest => readTokens fuel .single tokens (markQuoted word) rest
    | '"', rest => readTokens fuel .double tokens (markQuoted word) rest
    | '\\', d :: later => readTokens fuel .plain tokens (extend word (.literal d)) later
    | '$', rest =>
      match readReference rest with
      | some (target, later) =>
        readTokens fuel .plain tokens (extend word (.reference target false)) later
      | none => readTokens fuel .plain tokens (extend word (.literal '$')) rest
    | ' ', rest | '\t', rest => readTokens fuel .plain (close tokens word) none rest
    | ';', rest | '\n', rest => operator .separator rest
    | '&', '&' :: rest => operator .andThen rest
    | '|', '|' :: rest => operator .orElse rest
    | '>', '&' :: '1' :: rest => operator (.toChannel .output .output) rest
    | '>', '&' :: '2' :: rest => operator (.toChannel .output .errors) rest
    | '>', '>' :: rest => operator (.toFile .output true) rest
    | '>', rest => operator (.toFile .output false) rest
    | c, rest =>
      if word.isNone then
        match c, rest with
        | '1', '>' :: '&' :: '2' :: rest => operator (.toChannel .output .errors) rest
        | '2', '>' :: '&' :: '1' :: rest => operator (.toChannel .errors .output) rest
        | '2', '>' :: '>' :: rest => operator (.toFile .errors true) rest
        | '2', '>' :: rest => operator (.toFile .errors false) rest
        | '#', rest =>
          readTokens fuel .plain tokens none (rest.dropWhile fun d => d != '\n')
        | c, rest => readTokens fuel .plain tokens (extend word (.literal c)) rest
      else readTokens fuel .plain tokens (extend word (.literal c)) rest

/-- Where an output goes. -/
inductive Redirection
  | toFile (channel : Channel) (path : Word) (append : Bool)
  | toChannel (channel target : Channel)
deriving DecidableEq

/-- On which condition a command runs. -/
inductive Guard
  | always | afterSuccess | afterFailure
deriving DecidableEq

/-- A command of a script. -/
structure Command where
  /-- On which condition the command runs. -/
  guard : Guard := .always
  /-- The name of the command and its arguments. -/
  words : List Word := []
  /-- Where the outputs go, in the order in which it is said. -/
  redirections : List Redirection := []
deriving DecidableEq

/-- Adds a command to those before it, which are in reverse order, unless it is empty. -/
def Command.addTo (c : Command) (commands : List Command) : List Command :=
  if c.words.isEmpty && c.redirections.isEmpty then commands else c :: commands

/-- The commands of a list of tokens; `current` is the one that is being read. -/
def readCommands (commands : List Command) (current : Command) : List Token → List Command
  | [] => (current.addTo commands).reverse
  | .separator :: rest => readCommands (current.addTo commands) {} rest
  | .andThen :: rest => readCommands (current.addTo commands) { guard := .afterSuccess } rest
  | .orElse :: rest => readCommands (current.addTo commands) { guard := .afterFailure } rest
  | .word w :: rest => readCommands commands { current with words := current.words ++ [w] } rest
  | .toFile channel append :: .word path :: rest =>
    readCommands commands
      { current with
        redirections := current.redirections ++ [.toFile channel path append] } rest
  | .toFile _ _ :: rest => readCommands commands current rest
  | .toChannel channel target :: rest =>
    readCommands commands
      { current with redirections := current.redirections ++ [.toChannel channel target] } rest

/-- The commands of a script. -/
def parse (text : String) : List Command :=
  let cs := text.toList
  readCommands [] {} (readTokens (cs.length + 1) .plain [] none cs)

end Core65C02.Script
