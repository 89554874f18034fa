/-! The arguments of the command line, and how it shows elapsed time. -/

namespace Uwu.CommandLine

/-- The last stage to run. -/
inductive Stage where
  | lex | parse | analyze | check
  deriving DecidableEq

def Stage.ofName? : String → Option Stage
  | "lex" => some lex
  | "parse" => some parse
  | "analyze" => some analyze
  | "check" => some check
  | _ => none

structure Options where
  file : Option String
  stage : Stage
  /-- Print the tokens. -/
  tokens : Bool
  /-- Print what each stage found. -/
  verbose : Bool

def Options.initial : Options :=
  ⟨none, .check, false, false⟩

def usage : String :=
  "Usage: uwu [--tokens] [--stage lex|parse|analyze|check] [-v|--verbose] FILE"

def Options.withStage (o : Options) (name : String) : Except String Options :=
  match Stage.ofName? name with
  | some stage => .ok { o with stage }
  | none => .error s!"invalid stage '{name}'"

/-- Reads the arguments from left to right. -/
def Options.read : List String → Options → Except String Options
  | [], o => .ok o
  | "--stage" :: name :: args, o => do read args (← o.withStage name)
  | arg :: args, o => do
    if arg == "--tokens" then read args { o with tokens := true }
    else if arg == "--verbose" || arg == "-v" then read args { o with verbose := true }
    else if arg.startsWith "--stage=" then
      read args (← o.withStage (String.ofList (arg.toList.drop 8)))
    else if arg.startsWith "-" && arg != "-" then .error s!"unexpected argument '{arg}'"
    else if o.file.isSome then .error s!"unexpected argument '{arg}'"
    else read args { o with file := some arg }

/-- The last part of a path. -/
def fileName (path : String) : String :=
  let parts := (path.splitOn "/").filter (!·.isEmpty)
  parts.getLastD path

/-- A decimal fraction without zeros at its end. -/
def fraction (n digits : Nat) : String :=
  let ds := (Nat.toDigits 10 n).reverse
  let padded := ds ++ List.replicate (digits - ds.length) '0'
  match (padded.dropWhile (· == '0')).reverse with
  | [] => ""
  | ds => "." ++ String.ofList ds

/-- Nanoseconds in a unit of `size`, which is one with so many zeros. -/
def inUnit (nanos size zeros : Nat) (unit : String) : String :=
  toString (nanos / size) ++ fraction (nanos % size) zeros ++ unit

/-- Nanoseconds in the largest unit of which there is one. -/
def elapsed (nanos : Nat) : String :=
  if 1000000000 ≤ nanos then inUnit nanos 1000000000 9 "s"
  else if 1000000 ≤ nanos then inUnit nanos 1000000 6 "ms"
  else if 1000 ≤ nanos then inUnit nanos 1000 3 "µs"
  else s!"{nanos}ns"

end Uwu.CommandLine
