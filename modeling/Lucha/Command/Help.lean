/-!
# Help and version

What the command line tells about itself.
-/

namespace Lucha.Command

/-- The name and the version of the program. -/
def versionText : String := "luchadores 0.1.0"

/-- The lines that explain the command line. -/
def helpLines : List String := [
    "\x1b[1mLuchadores\x1b[0m - Scripted turn-based combat",
    "",
    "\x1b[1mUSAGE:\x1b[0m",
    "    luchadores [OPTIONS] FILES...",
    "",
    "\x1b[1mARGUMENTS:\x1b[0m",
    "    FILES...    Combat programs to run, in order",
    "",
    "\x1b[1mOPTIONS:\x1b[0m",
    "    -h, --help         Print help information",
    "    -V, --version      Print version information",
    "    -c, --check        Parse and validate only, print a summary",
    "    --pretty           Print the program as canonical source, do not run",
    "",
    "\x1b[1mOUTPUT OPTIONS:\x1b[0m",
    "    -j, --json         Print events and result as JSON lines",
    "    -q, --quiet        Print only the final result",
    "    -s, --stats        Append per-fighter statistics (text output)",
    "    --events a,b       Only show these event types",
    "",
    "\x1b[1mENGINE OPTIONS:\x1b[0m",
    "    --max-combo-depth N      Abort combos nested deeper than N (default 32, at most 256)",
    "    --max-combos-per-turn N  End a turn after it enters N combos (default 1024)",
    "",
    "\x1b[1mDEBUG OPTIONS:\x1b[0m",
    "    -v, --verbose      Log engine progress to stderr (repeat for more)",
    "                       Without -v, RUST_LOG selects the log filter",
    "",
    "\x1b[1mEVENT TYPES:\x1b[0m",
    "    turn-start, action-applied, action-failed, combo-executed,",
    "    combo-fallback, block-used, unknown-action, combo-aborted, combat-end",
    "",
    "\x1b[1mEXAMPLES:\x1b[0m",
    "    luchadores pelea.txt                  Run a combat",
    "    luchadores -c pelea.txt               Check a program without running it",
    "    luchadores -j pelea.txt               Machine-readable output",
    "    luchadores --events combo-fallback,combo-aborted pelea.txt",
    "    luchadores -q demos/*.txt             Results only, several programs"]

/-- The explanation of the command line. -/
def helpText : String := "\n".intercalate helpLines

end Lucha.Command
