/-! The end of a string segment: the first quote or bar that no backslash escapes. -/

namespace Uwu.Lexeme

/-- Characters that end a string segment. -/
def isSegmentEnd (c : Char) : Bool :=
  c == '"' || c == '|'

/-- Where a segment ends and with which character, when `run` backslashes stand directly before
the text. After an odd number of backslashes a character is escaped. -/
def segmentEnd? : (run : Nat) → List Char → Option (Nat × Char)
  | _, [] => none
  | run, c :: cs =>
    if isSegmentEnd c && run % 2 == 0 then some (0, c)
    else (segmentEnd? (if c = '\\' then run + 1 else 0) cs).map fun (n, e) => (n + 1, e)

/-- The same end, found by reading a backslash and the character after it as one unit. -/
def scanSegment? : List Char → Option (Nat × Char)
  | [] => none
  | '\\' :: cs =>
    match cs with
    | [] => none
    | _ :: cs => (scanSegment? cs).map fun (n, e) => (n + 2, e)
  | c :: cs =>
    if isSegmentEnd c then some (0, c) else (scanSegment? cs).map fun (n, e) => (n + 1, e)

/-- What an escaped character stands for. -/
def escaped : Char → Char
  | 'n' => '\n'
  | 't' => '\t'
  | c => c

/-- Replaces every backslash and the character after it; a backslash at the end stays. -/
def unescape : List Char → List Char
  | [] => []
  | '\\' :: cs =>
    match cs with
    | [] => ['\\']
    | c :: cs => escaped c :: unescape cs
  | c :: cs => c :: unescape cs

end Uwu.Lexeme
