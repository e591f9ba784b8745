import MipsRecompiler.CommandLine.Options

/-!
# What is shown when nothing runs

The texts for arguments that ask for help or for the version.
-/

set_option autoImplicit false

namespace MipsRecompiler.CommandLine

def helpLines : List String := [
  "Run a raw big-endian VR4300 program image through the recompiler",
  "",
  "Usage: mu-jit [OPTIONS] <IMAGE>",
  "",
  "Arguments:",
  "  <IMAGE>  Raw image, loaded into RDRAM at --base",
  "",
  "Options:",
  "      --base <BASE>              " ++
    "Physical load address. Execution starts at its kseg0 alias [default: 0]",
  "      --steps <STEPS>            Stop after this many blocks [default: 1000]",
  "      --compare                  " ++
    "Run the interpreter alongside and stop at the first block where they disagree",
  "      --dump                     " ++
    "Print the last compiled block's guest, IR and host listings at the end",
  "      --platform <PLATFORM>      " ++
    "Host register description used for allocation [default: x86_64]",
  "      --cache-size <CACHE_SIZE>  Code cache size in bytes [default: 33554432]",
  "      --no-idle-loops            ",
  "      --log-compilations         Log every block as it is compiled (needs -v)",
  "  -h, --help                     Print help",
  "  -V, --version                  Print version",
  "",
  "Global Options:",
  "  -v, --verbose...  " ++
    "Increase log verbosity (-v debug, -vv trace). RUST_LOG overrides this",
  "  -q, --quiet       Only log errors"]

def versionLine : String := "mu-jit 0.1.0"

/-- The lines that answer arguments with which nothing runs, unless they are refused. -/
def Stop.lines : Stop → List String
  | .refused => []
  | .help => helpLines
  | .version => [versionLine]

end MipsRecompiler.CommandLine
