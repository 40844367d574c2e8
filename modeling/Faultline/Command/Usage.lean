/-
# Command.Usage — how to call the program

The help texts. Each one ends with an empty line.
-/

namespace Faultline.Command.Usage

def lines (ls : List String) : String :=
  String.join (ls.map (· ++ "\n"))

def overview : String :=
  lines
    ["Kint finds integer overflow, shift and division errors in LLVM IR.",
      "",
      "Usage:",
      "",
      "\tkint <command> [arguments]",
      "",
      "The commands are:",
      "",
      "\tcheck         instrument and query IR files",
      "\tinstrument    insert sentinel calls and print the IR",
      "\tquery         query IR that is already instrumented",
      "\thelp          this screen",
      ""]

def sharedArguments : List String :=
  ["",
    "Shared arguments:",
    "",
    "\t-fail",
    "\t    exit with status 2 if any error is reported",
    "\t-v",
    "\t    enable debug logging",
    "\t-config PATH",
    "\t    read settings from a .yml or .toml file",
    "\t-solver NAME",
    "\t    solver backend (default \"gini\")",
    "\t-timeout DURATION",
    "\t    per query timeout",
    "\t-j N",
    "\t    number of functions checked in parallel",
    "\t-color",
    "\t    colorize reports",
    "\t-exclude PATTERNS",
    "\t    comma-separated function name patterns to skip",
    "\t-dump",
    "\t    log each query as an SMT-LIB script",
    "\t-model",
    "\t    log the model of each reported error",
    ""]

def check : String :=
  lines
    (["usage: kint check [arguments] FILE.ll...",
      "",
      "Instruments each IR file with sentinel calls, then queries every sentinel",
      "and prints one line per possible integer error."] ++ sharedArguments)

def query : String :=
  lines
    (["usage: kint query [arguments] FILE.ll...",
      "",
      "Queries the sentinel calls of IR files that were already instrumented",
      "with \"kint instrument\" and prints one line per possible integer error."] ++ sharedArguments)

def instrument : String :=
  lines
    ["usage: kint instrument [arguments] FILE.ll",
      "",
      "Inserts a sentinel call before every observable add, sub and mul and",
      "before every shift and division, then prints the resulting IR.",
      "",
      "Arguments:",
      "",
      "\t-o PATH",
      "\t    write the IR to PATH instead of stdout",
      "\t-v",
      "\t    enable debug logging",
      ""]

end Faultline.Command.Usage
