/-! The arguments of the command line. -/

namespace TarRecipe.CommandLine

inductive Verb where
  | build
  | list
  deriving DecidableEq, Repr

inductive Setting where
  | config
  | recipe
  | output
  deriving DecidableEq, Repr

inductive Flag where
  | verbose
  | zstd
  | digest
  | help
  | version
  deriving DecidableEq, Repr

inductive Switch where
  | setting (s : Setting)
  | flag (f : Flag)
  deriving DecidableEq, Repr

structure Options where
  context : Option String
  config : Option String
  recipe : Option String
  output : Option String
  zstd : Bool
  digest : Bool
  deriving DecidableEq, Repr

def Options.none : Options := ⟨.none, .none, .none, .none, false, false⟩

inductive Stop where
  | misuse
  | help (verb : Option Verb)
  | version
  deriving DecidableEq, Repr

def Verb.ofName? : String → Option Verb
  | "build" => some .build
  | "ls" => some .list
  | _ => none

def known (verb : Option Verb) : Switch → Bool
  | .setting .config => true
  | .setting .recipe => verb.isSome
  | .setting .output => verb == some .build
  | .flag .zstd => verb == some .build
  | .flag .digest => verb == some .build
  | .flag .version => verb.isNone
  | .flag .verbose => true
  | .flag .help => true

def longSwitch? (verb : Option Verb) (name : String) : Option Switch :=
  let switch? : Option Switch := match name with
    | "config" => some (.setting .config)
    | "tarfile" => some (.setting .recipe)
    | "output" => some (.setting .output)
    | "verbose" => some (.flag .verbose)
    | "zstd" => some (.flag .zstd)
    | "digest" => some (.flag .digest)
    | "help" => some (.flag .help)
    | "version" => some (.flag .version)
    | _ => .none
  switch?.filter (known verb)

def shortSwitch? (verb : Option Verb) (c : Char) : Option Switch :=
  let switch? : Option Switch := match c with
    | 'c' => some (.setting .config)
    | 't' => some (.setting .recipe)
    | 'o' => some (.setting .output)
    | 'v' => some (.flag .verbose)
    | 'h' => some (.flag .help)
    | 'V' => some (.flag .version)
    | _ => .none
  switch?.filter (known verb)

namespace Options

def get (o : Options) : Setting → Option String
  | .config => o.config
  | .recipe => o.recipe
  | .output => o.output

def set (o : Options) (s : Setting) (value : String) : Except Stop Options :=
  if value = "" ∨ (o.get s).isSome then .error .misuse
  else .ok <| match s with
    | .config => { o with config := some value }
    | .recipe => { o with recipe := some value }
    | .output => { o with output := some value }

def raise (o : Options) (verb : Option Verb) : Flag → Except Stop Options
  | .verbose => .ok o
  | .zstd => if o.zstd then .error .misuse else .ok { o with zstd := true }
  | .digest => if o.digest then .error .misuse else .ok { o with digest := true }
  | .help => .error (.help verb)
  | .version => .error .version

end Options

def readLong (verb : Option Verb) (o : Options) (arg : List Char) :
    Except Stop (Options × Option Setting) :=
  let name := String.ofList (arg.takeWhile (· != '='))
  match longSwitch? verb name, arg.dropWhile (· != '=') with
  | some (.setting s), [] => .ok (o, some s)
  | some (.setting s), _ :: value => (o.set s (String.ofList value)).map (·, none)
  | some (.flag f), [] => (o.raise verb f).map (·, none)
  | _, _ => .error .misuse

def readShort (verb : Option Verb) (o : Options) :
    List Char → Except Stop (Options × Option Setting)
  | [] => .ok (o, none)
  | c :: s =>
    match shortSwitch? verb c with
    | none => .error .misuse
    | some (.flag f) => do readShort verb (← o.raise verb f) s
    | some (.setting setting) =>
      match s with
      | [] => .ok (o, some setting)
      | '=' :: value => (o.set setting (String.ofList value)).map (·, none)
      | value => (o.set setting (String.ofList value)).map (·, none)

/-- Reads the arguments of a command. A setting may be waiting for its value, and behind two dashes
everything is literal. -/
def readCommand (verb : Verb) (waiting : Option Setting) (literal : Bool) (o : Options) :
    List String → Except Stop Options
  | [] => if waiting.isSome then .error .misuse else .ok o
  | arg :: args =>
    match literal, waiting, arg.toList with
    | false, none, ['-', '-'] => readCommand verb none true o args
    | false, none, '-' :: '-' :: s => do
      let (o, waiting) ← readLong verb o s
      readCommand verb waiting false o args
    | false, none, '-' :: c :: s => do
      let (o, waiting) ← readShort verb o (c :: s)
      readCommand verb waiting false o args
    | _, some _, '-' :: _ :: _ => .error .misuse
    | _, some s, _ => do readCommand verb none literal (← o.set s arg) args
    | _, none, _ =>
      if arg = "" ∨ o.context.isSome then .error .misuse
      else readCommand verb none literal { o with context := some arg } args

def readHelp : List String → Stop
  | [] => .help none
  | [name] =>
    if name = "help" then .help none
    else
      match Verb.ofName? name with
      | some verb => .help (some verb)
      | none => .misuse
  | _ => .misuse

structure Invocation where
  outer : Options
  verb : Verb
  inner : Options
  deriving DecidableEq, Repr

def readProgram (waiting : Option Setting) (o : Options) : List String → Except Stop Invocation
  | [] => .error .misuse
  | arg :: args =>
    match waiting, arg.toList with
    | none, ['-', '-'] => .error .misuse
    | none, '-' :: '-' :: s => do
      let (o, waiting) ← readLong none o s
      readProgram waiting o args
    | none, '-' :: c :: s => do
      let (o, waiting) ← readShort none o (c :: s)
      readProgram waiting o args
    | some _, '-' :: _ :: _ => .error .misuse
    | some s, _ => do readProgram none (← o.set s arg) args
    | none, _ =>
      if arg = "help" then .error (readHelp args)
      else
        match Verb.ofName? arg with
        | none => .error .misuse
        | some verb => (readCommand verb none false .none args).map fun inner => ⟨o, verb, inner⟩

def Invocation.configFile (i : Invocation) (env : Option String) : Except Stop (Option String) :=
  if env = some "" ∧ (i.inner.config.isNone ∨ i.outer.config.isNone) then .error .misuse
  else .ok (i.inner.config <|> i.outer.config <|> env)

end TarRecipe.CommandLine
