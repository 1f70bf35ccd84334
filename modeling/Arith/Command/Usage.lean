import Arith.Command.Arguments

/-!
# Usage

The texts that tell how the command is called. The usage is what a refusal begins with; the help
begins with the usage and says what every argument is for.
-/

namespace Arith.Command

/-- How the command is called. -/
def usage : List Char :=
  "usage: whylang [-h] [-o OUTPUT] [-f \x7bsexpr,tree,tokens\x7d] [--indent]\n".toList
    ++ "               [--config FILE] [--log-level LEVEL]\n".toList
    ++ "               input\n".toList

/-- What the arguments of the command are for. -/
def help : List Char :=
  usage
    ++ "\nTokenize and parse a WhyLang expression\n".toList
    ++ "\npositional arguments:\n".toList
    ++ "  input                 Input source file, or - for stdin\n".toList
    ++ "\noptions:\n".toList
    ++ "  -h, --help            show this help message and exit\n".toList
    ++ "  -o OUTPUT, --output OUTPUT\n".toList
    ++ "                        Output file (default: stdout)\n".toList
    ++ "  -f \x7bsexpr,tree,tokens\x7d, --format \x7bsexpr,tree,tokens\x7d\n".toList
    ++ "                        Output format (default: sexpr)\n".toList
    ++ "  --indent              Put each nested S-expression on its own line\n".toList
    ++ "  --config FILE         Config file (default: auto-discover whylang.toml)\n".toList
    ++ "  --log-level LEVEL     Logging level: DEBUG, INFO, WARNING or ERROR (default:\n".toList
    ++ "                        WARNING)\n".toList

/-- What is said about arguments that are refused. -/
def Refusal.notice (r : Refusal) : List Char :=
  usage ++ "whylang: error: ".toList ++ r.message ++ ['\n']

end Arith.Command
