import EntityGraph.CommandLine.Report
import EntityGraph.CommandLine.Listing

/-!
# Program

Reads a listing of the working directory from standard input, runs the command that the arguments ask
for, and prints its report.
-/

namespace EntityGraph.CommandLine

/-- The lines of a stream up to its end. -/
partial def readLines (input : IO.FS.Stream) (lines : Array (List Char)) :
    IO (List (List Char)) := do
  let line ← input.getLine
  if line.isEmpty then return lines.toList
  let text := line.toList
  readLines input (lines.push (if text.getLast? = some '\n' then text.dropLast else text))

end EntityGraph.CommandLine

open EntityGraph.CommandLine in
def main (arguments : List String) : IO UInt32 := do
  match Listing.workspace? (← readLines (← IO.getStdin) #[]) with
  | none =>
    IO.eprintln "Error: Malformed listing of the working directory"
    return 1
  | some workspace =>
    let report := run workspace arguments
    IO.print report.output
    IO.eprint report.errors
    return UInt32.ofNat report.exitCode
