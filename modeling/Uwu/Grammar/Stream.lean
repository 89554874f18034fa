import Uwu.Token.Basic

/-! The tokens that a parser has still to read. Behind them all is the end, again and again. -/

namespace Uwu.Grammar

structure Stream where
  tokens : List Token
  /-- Where the end is. -/
  stop : Span
  /-- The span of the token read last; at the start, of the first token. -/
  previous : Span

def endToken (stop : Span) : Token :=
  ⟨.endOfFile, "", stop⟩

namespace Stream

/-- Trivia is left out. Without an end token the end is where the last token ends. -/
def ofTokens (tokens : List Token) : Stream :=
  let tokens := tokens.filter fun t => !t.kind.isTrivia
  let (tokens, stop) :=
    match tokens.getLast? with
    | none => ([], Span.point ⟨0, 0⟩)
    | some t =>
      if t.kind = .endOfFile then (tokens.dropLast, t.span) else (tokens, Span.point t.span.stop)
  ⟨tokens, stop, (tokens.headD (endToken stop)).span⟩

def current (s : Stream) : Token :=
  s.tokens.headD (endToken s.stop)

/-- The token after the current one. -/
def peek (s : Stream) : Token :=
  s.tokens.tail.headD (endToken s.stop)

/-- One token on. -/
def advance (s : Stream) : Stream :=
  match s.tokens with
  | [] => s
  | t :: ts => ⟨ts, s.stop, t.span⟩

/-! ### Skipping broken text -/

/-- The rest of a broken statement, `depth` blocks deep: up to and with its terminator, or past its
block, or up to the end of the block around it. -/
def skipStatementFrom (stop : Span) : (depth : Nat) → (previous : Span) → List Token → Stream
  | _, p, [] => ⟨[], stop, p⟩
  | depth, p, t :: ts =>
    match t.kind with
    | .endOfFile => ⟨t :: ts, stop, p⟩
    | .symbol .terminator =>
      if depth = 0 then ⟨ts, stop, t.span⟩ else skipStatementFrom stop depth t.span ts
    | .symbol .doubleOpenBracket => skipStatementFrom stop (depth + 1) t.span ts
    | .symbol .doubleCloseBracket =>
      match depth with
      | 0 => ⟨t :: ts, stop, p⟩
      | 1 => ⟨ts, stop, t.span⟩
      | depth + 1 => skipStatementFrom stop depth t.span ts
    | _ => skipStatementFrom stop depth t.span ts

def skipStatement (s : Stream) : Stream :=
  skipStatementFrom s.stop 0 s.previous s.tokens

/-- Keywords that begin an item of the program. -/
def beginsItem : Kind → Bool
  | .keyword .gwobaw | .keyword .fwunc | .keyword .cwass => true
  | _ => false

/-- Up to the next token that begins an item outside of blocks. -/
def skipItemFrom (stop : Span) : (depth : Nat) → (previous : Span) → List Token → Stream
  | _, p, [] => ⟨[], stop, p⟩
  | depth, p, t :: ts =>
    if t.kind = .endOfFile ∨ (beginsItem t.kind ∧ depth = 0) then ⟨t :: ts, stop, p⟩
    else
      match t.kind with
      | .symbol .doubleOpenBracket => skipItemFrom stop (depth + 1) t.span ts
      | .symbol .doubleCloseBracket => skipItemFrom stop (depth - 1) t.span ts
      | _ => skipItemFrom stop depth t.span ts

def skipItem (s : Stream) : Stream :=
  skipItemFrom s.stop 0 s.previous s.tokens

end Stream

end Uwu.Grammar
