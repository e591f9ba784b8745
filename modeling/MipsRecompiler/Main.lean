import MipsRecompiler.CommandLine.Help
import MipsRecompiler.CommandLine.Run

/-!
# The command line program

Reads a program image from a file, runs it and prints the report.
-/

set_option autoImplicit false

namespace MipsRecompiler.CommandLine

def printLines (lines : List String) : IO Unit :=
  lines.forM fun line => IO.println line

def reportLines (lines : List String) : IO Unit :=
  lines.forM fun line => IO.eprintln line

/-- Runs the image in a file and prints the report. The result is the exit status. -/
def runFile (options : Options) : IO UInt32 := do
  match ← (IO.FS.readBinFile options.image).toBaseIO with
  | .error reason =>
    reportLines ["Error: reading " ++ options.image, "", "Caused by:", "    " ++ toString reason]
    return 1
  | .ok image =>
    match runImage options image.toList with
    | .ok lines =>
      printLines lines
      return 0
    | .error failure =>
      reportLines failure.lines
      return 1

end MipsRecompiler.CommandLine

open MipsRecompiler.CommandLine in
def main (arguments : List String) : IO UInt32 := do
  match Options.ofArguments arguments with
  | .ok options => runFile options
  | .error .refused =>
    reportLines ["error: these arguments cannot be used", "", "For more information, try '--help'."]
    return 2
  | .error stop =>
    printLines stop.lines
    return 0
