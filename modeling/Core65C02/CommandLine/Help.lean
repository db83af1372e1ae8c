import Core65C02.CommandLine.Arguments

/-!
# Help on the usage

The texts that explain how the program is called.
-/

namespace Core65C02.CommandLine

/-- The name of the program. -/
def programName : String := "wdc65c02_emulator"

/-- The version of the program. -/
def versionText : String := programName ++ " 0.1.0"

/-- How a command is called. -/
def usageText : Topic → String
  | .overview => programName ++ " <COMMAND>"
  | .run => programName ++ " run [OPTIONS] <PROGRAM>"
  | .vectors => programName ++ " vectors [OPTIONS] <PATHS>..."
  | .opcodes => programName ++ " opcodes [MNEMONIC]"
  | .help => programName ++ " help [COMMAND]"

/-- What a command does. -/
def purpose : Topic → String
  | .overview => "WDC 65C02 emulator"
  | .run => "Load a program and run it to completion"
  | .vectors => "Run SingleStepTests-style JSON vectors (files or directories)"
  | .opcodes => "Print the opcode table, or the rows of one mnemonic"
  | .help => "Print this message or the help of the given subcommand(s)"

/-- The commands, operands and options of a topic. -/
def details : Topic → List String
  | .overview =>
    ["Commands:",
     "  run      Load a program and run it to completion",
     "  vectors  Run SingleStepTests-style JSON vectors (files or directories)",
     "  opcodes  Print the opcode table, or the rows of one mnemonic",
     "  help     Print this message or the help of the given subcommand(s)",
     "",
     "Options:",
     "  -h, --help     Print help",
     "  -V, --version  Print version"]
  | .run =>
    ["Arguments:",
     "  <PROGRAM>  Raw binary, or assembly source with --asm",
     "",
     "Options:",
     "      --base <BASE>              Load address, e.g. 0x0600 or $0600",
     "      --asm                      Assemble the program with 64tass first",
     "      --config <CONFIG>          JSON run configuration; flags below override it",
     "      --clock <CLOCK>            Clock profile name (micro, standard, turbo, ...) or a " ++
       "frequency in Hz",
     "      --max-steps <MAX_STEPS>    ",
     "      --single-step              Pause after every instruction",
     "      --log-level <LOG_LEVEL>    ",
     "      --metrics                  Record Prometheus metrics and print them on exit",
     "      --save-state <SAVE_STATE>  Write the final state as JSON",
     "      --checkpoint <CHECKPOINT>  Write a compressed checkpoint of the final state",
     "  -h, --help                     Print help"]
  | .vectors =>
    ["Arguments:",
     "  <PATHS>...  ",
     "",
     "Options:",
     "      --all   Also run BRK, STP, WAI, the debug slots and undefined opcodes",
     "  -h, --help  Print help"]
  | .opcodes =>
    ["Arguments:",
     "  [MNEMONIC]  ",
     "",
     "Options:",
     "  -h, --help  Print help"]
  | .help =>
    ["Arguments:",
     "  [COMMAND]...  Print help for the subcommand(s)"]

/-- The help on a topic, line by line. -/
def helpLines (topic : Topic) : List String :=
  [purpose topic, "", "Usage: " ++ usageText topic, ""] ++ details topic

end Core65C02.CommandLine
