import TreeLint.CommandLine.Basic
import TreeLint.Json.Reader
import TreeLint.Snapshot

/-!
# The program

The project to check comes on standard input, as a snapshot of its files and
their concrete trees.
-/

open TreeLint

namespace TreeLint

namespace CommandLine

def helpText : String :=
  "Command-line interface for the quarry source checker\n\n" ++
    "Usage: quarry [OPTIONS] <COMMAND>\n\n" ++
    "Commands:\n" ++
    "  check    Check source files against the loaded rules\n" ++
    "  test     Compile every rule and report each problem\n" ++
    "  rules    List the loaded rules\n" ++
    "  version  Print the version\n\n" ++
    "Options:\n" ++
    "      --config <PATH>        Rule file to load\n" ++
    "      --root <DIR>           Directory that rule globs are relative to\n" ++
    "      --log-filter <FILTER>  Filter for the log\n" ++
    "      --log-format <FORMAT>  Format of the log\n" ++
    "  -h, --help                 Print help\n"

def wording : Wording where
  help := helpText
  usage e := e.message ++ "\n\nFor more information, try '--help'.\n"
  invalidFile := "not a valid rule file"

partial def readAll (input : IO.FS.Stream) (text : String) : IO String := do
  let line ← input.getLine
  if line.isEmpty then return text
  readAll input (text ++ line)

/-- The snapshot that a text holds; an empty text stands for an empty project. -/
def readSnapshot (text : String) : Option Snapshot :=
  let place := ["project"]
  if text.isEmpty then some (.empty place)
  else (Json.read? text).bind (Snapshot.ofJson? place)

end CommandLine

end TreeLint

open TreeLint.CommandLine in
/-- Read the snapshot, run the command, and write what it leaves behind. -/
def main (args : List String) : IO UInt32 := do
  match readSnapshot (← readAll (← IO.getStdin) "") with
  | none =>
      IO.eprintln "error: standard input holds no snapshot"
      return 1
  | some snapshot =>
      let surroundings : Surroundings :=
        { files := snapshot.files
          parser := snapshot.parser
          logVariable := ← IO.getEnv "QUARRY_LOG" }
      let outcome := run wording surroundings args
      IO.print outcome.out
      IO.eprint outcome.err
      return if outcome.success then 0 else 1
