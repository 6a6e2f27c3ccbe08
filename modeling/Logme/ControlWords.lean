import Logme.StructuredOutput

/-!
# Words of control commands

The control code splits a command in two ways: `WordSplit` at blanks and tabs,
with every kind of space trimmed from the words, and the scan for the remainder
of a command, to which line ends are separators too but a form feed or a
vertical tab is text.
-/

namespace Logme

/-- `tolower` in the C locale. -/
def toLowerByte (c : UInt8) : UInt8 :=
  if 0x41 ≤ c ∧ c ≤ 0x5A then c + 0x20 else c

def toLowerAscii (s : Name) : Name := s.map toLowerByte

/-- `s.rfind(text, 0) == 0`. -/
def startsWith (text s : Name) : Bool := text.isPrefixOf s

/-- The pieces between the separators. -/
def splitBytes (separator : UInt8 → Bool) : Name → List Name
  | [] => [[]]
  | c :: rest =>
      if separator c then [] :: splitBytes separator rest
      else
        match splitBytes separator rest with
        | [] => [[c]]
        | word :: words => (c :: word) :: words

def trimmed (space : UInt8 → Bool) (s : Name) : Name :=
  ((s.dropWhile space).reverse.dropWhile space).reverse

/-- The spaces of `TrimSpaces` and `WordSplit`. -/
def isSpaceByte (c : UInt8) : Bool :=
  c = 0x20 || c = 0x09 || c = 0x0A || c = 0x0D || c = 0x0C || c = 0x0B

def trimSpaces (s : Name) : Name := trimmed isSpaceByte s

/-- The default delimiters of `WordSplit`. -/
def isDelimiterByte (c : UInt8) : Bool := c = 0x20 || c = 0x09

/-- `WordSplit`, which trims the words and drops the empty ones. -/
def wordSplitBy (delimiter : UInt8 → Bool) (s : Name) : List Name :=
  ((splitBytes delimiter s).map trimSpaces).filter (· ≠ [])

def wordSplit (s : Name) : List Name := wordSplitBy isDelimiterByte s

/-- The spaces of the lambdas `Trim` and `SplitRemainderAfterWords`. -/
def isBlankByte (c : UInt8) : Bool :=
  c = 0x20 || c = 0x09 || c = 0x0D || c = 0x0A

def trimBlanks (s : Name) : Name := trimmed isBlankByte s

/-- The loop of `SplitRemainderAfterWords`, with the words to go. -/
def remainderFrom (inWord : Bool) (words : Nat) : Name → Name
  | [] => []
  | c :: rest =>
      if isBlankByte c then remainderFrom false words rest
      else if inWord then remainderFrom true words rest
      else
        match words with
        | 0 => c :: rest
        | words + 1 => remainderFrom true words rest

def splitRemainderAfterWords (s : Name) (words : Nat) : Name :=
  remainderFrom false words s

/-- `GetCommandName`: the lowered name and the words before it; the empty name
for a command without words. -/
def getCommandName (command : Name) : Name × Nat :=
  match wordSplit (toLowerAscii command) with
  | [] => ([], 0)
  | first :: second :: third :: _ =>
      if first = ascii "format" ∧ second = ascii "json" then (third, 2)
      else (first, 0)
  | first :: _ => (first, 0)

end Logme
