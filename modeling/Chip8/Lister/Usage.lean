import Chip8.Hex
import Chip8.Layout

/-!
# The help of the lister

## Main definitions

* `versionText` — the answer to a question for the version
* `helpText` — the answer to a question for help
-/

namespace Chip8.Lister

/-- The name and the version of the program. -/
def versionText : String := "chip8disasm 0.1.0\n"

/-- The help of the program. -/
def helpText : String :=
  versionText ++ "\n".intercalate [
    "Lists the instructions of a Chip-8 program",
    "",
    "USAGE:",
    "    chip8disasm [FLAGS] [OPTIONS] [FILE]",
    "",
    "FLAGS:",
    "    -a, --absolute    show addresses as loaded at $" ++ Hex.text 3 Layout.programStart ++
      " instead of file offsets",
    "    -h, --help        Prints help information",
    "    -V, --version     Prints version information",
    "    -v, --verbose     log more (repeat for debug and trace output)",
    "",
    "OPTIONS:",
    "    -o, --output <OUTPUT>    write the listing to OUTPUT instead of standard output",
    "",
    "ARGS:",
    "    <FILE>    the program to list, or - for standard input [default: -]",
    ""]

end Chip8.Lister
