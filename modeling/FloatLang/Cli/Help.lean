/-!
# What the program tells about itself
-/

namespace FloatLang.Cli

/-- The name under which the program is called. It is the name of its modules too. -/
def programName : String := "kaleido"

def versionText : String := programName ++ " 0.1.0\n"

private def ofLines (lines : List String) : String := String.join (lines.map (· ++ "\n"))

/-- The answer to a request for help by the short option. -/
def shortHelp : String := ofLines [
  "Reads statements, prints the IR they lower to and evaluates top-level expressions",
  "",
  "Usage: kaleido [OPTIONS] [FILE]",
  "",
  "Arguments:",
  "  [FILE]  Source file; reads stdin interactively when omitted",
  "",
  "Options:",
  "      --backend <BACKEND>  IR backend [default: text] [possible values: text, llvm]",
  "      --no-eval            Lower top-level expressions without running them",
  "      --dump-module        Print the whole module once the input is exhausted",
  "  -v, --verbose            Log parser and lowering activity",
  "  -h, --help               Print help (see more with '--help')",
  "  -V, --version            Print version"]

/-- The answer to a request for help by the long option. -/
def longHelp : String := ofLines [
  "Reads statements, prints the IR they lower to and evaluates top-level expressions",
  "",
  "Usage: kaleido [OPTIONS] [FILE]",
  "",
  "Arguments:",
  "  [FILE]",
  "          Source file; reads stdin interactively when omitted",
  "",
  "Options:",
  "      --backend <BACKEND>",
  "          IR backend",
  "",
  "          Possible values:",
  "          - text: Built-in SSA backend",
  "          - llvm: LLVM, needs the `llvm` feature",
  "          ",
  "          [default: text]",
  "",
  "      --no-eval",
  "          Lower top-level expressions without running them",
  "",
  "      --dump-module",
  "          Print the whole module once the input is exhausted",
  "",
  "  -v, --verbose",
  "          Log parser and lowering activity",
  "",
  "  -h, --help",
  "          Print help (see a summary with '-h')",
  "",
  "  -V, --version",
  "          Print version"]

end FloatLang.Cli
