import TarRecipe.CommandLine.Arguments

/-! What the program says about itself. -/

namespace TarRecipe.CommandLine

def versionText : String := "tarbuild 0.1.0\n"

def configLine (env : Option String) : String :=
  "  -c, --config <CONFIG>  config file (toml) [env: TARBUILD_CONFIG=" ++ env.getD "" ++ "]\n"

def verboseLine : String :=
  "  -v, --verbose...       increase log verbosity (-v info, -vv debug, -vvv trace)\n"

def recipeLine : String :=
  "  -t, --tarfile <FILE>   Tarfile location (default: <context>/Tarfile)\n"

def helpLine : String := "  -h, --help             Print help\n"

def contextLines : String :=
  "Arguments:\n  [CONTEXT]  the context directory for the build [default: .]\n\n"

def helpText (env : Option String) : Option Verb → String
  | none =>
    "build reproducible tar archives from a Tarfile\n\nUsage: tarbuild [OPTIONS] <COMMAND>\n\n" ++
    "Commands:\n  build  make a new tar archive\n" ++
    "  ls     list the entries a build would produce\n" ++
    "  help   Print this message or the help of the given subcommand(s)\n\n" ++
    "Options:\n" ++ configLine env ++ verboseLine ++ helpLine ++
    "  -V, --version          Print version\n"
  | some .build =>
    "make a new tar archive\n\nUsage: tarbuild build [OPTIONS] [CONTEXT]\n\n" ++ contextLines ++
    "Options:\n" ++ configLine env ++ recipeLine ++
    "  -o, --output <FILE>    path to the output archive, `-` for stdout [default: -]\n" ++
    verboseLine ++ "      --zstd             zstd-compress the archive\n" ++
    "      --digest           print the sha256 of the output to stderr\n" ++ helpLine
  | some .list =>
    "list the entries a build would produce\n\nUsage: tarbuild ls [OPTIONS] [CONTEXT]\n\n" ++
    contextLines ++ "Options:\n" ++ configLine env ++ recipeLine ++ verboseLine ++ helpLine

end TarRecipe.CommandLine
