/-!
# Syntax — command lines

A command line is a command and its arguments.  Arguments are read from left to right: options with
their values, attached or as the next argument, and inputs; behind `--` everything is an input.
-/

namespace Adl.Command

/-! ### Commands -/

/-- What all commands that read schemas are given. -/
structure Inputs where
  modules : List String
  searchPath : List String
  config : Option String
  deriving DecidableEq, Repr

/-- A command. -/
inductive Action where
  | generate (inputs : Inputs) (output : Option String) (targets : List String) (noAst : Bool)
  | check (inputs : Inputs)
  | ast (inputs : Inputs) (module : Option String)
  | targets
  deriving DecidableEq, Repr

/-- Why a command line is no command. -/
inductive Stop where
  | help
  | version
  | usage
  deriving DecidableEq, Repr

/-! ### Options -/

/-- The options. -/
inductive Opt where
  | searchPath
  | config
  | output
  | target
  | noAst
  | module
  | help
  deriving DecidableEq, Repr

namespace Opt

/-- The name of an option behind two dashes. -/
def long : Opt → String
  | searchPath => "search-path"
  | config => "config"
  | output => "output"
  | target => "target"
  | noAst => "no-ast"
  | module => "module"
  | help => "help"

/-- The letter of an option behind one dash. -/
def short? : Opt → Option Char
  | searchPath => some 'I'
  | config => some 'c'
  | output => some 'o'
  | target => some 't'
  | noAst => none
  | module => some 'm'
  | help => some 'h'

/-- Whether an option has a value. -/
def hasValue : Opt → Bool
  | noAst | help => false
  | _ => true

/-- Whether an option may be given several times. -/
def isRepeatable : Opt → Bool
  | searchPath | target => true
  | _ => false

/-- Whether the value of an option is a path, which is not empty. -/
def isPath : Opt → Bool
  | searchPath | config | output => true
  | _ => false

end Opt

/-- The arguments that have been read. -/
structure Given where
  inputs : List String
  options : List (Opt × String)

namespace Given

/-- The values of an option in the order in which they are given. -/
def values (g : Given) (o : Opt) : List String :=
  (g.options.filter (·.1 = o)).map (·.2)

/-- Whether an option is given. -/
def has (g : Given) (o : Opt) : Bool := g.options.any (·.1 = o)

/-- Adds an option with its value. -/
def add (g : Given) (o : Opt) (value : String) : Except Stop Given :=
  if o = .help then .error .help
  else if g.has o ∧ ¬ o.isRepeatable then .error .usage
  else if o.isPath ∧ value.isEmpty then .error .usage
  else .ok { g with options := g.options ++ [(o, value)] }

/-- What all commands that read schemas are given; there is at least one module. -/
def toInputs (g : Given) : Except Stop Inputs :=
  if g.inputs.isEmpty then .error .usage
  else .ok ⟨g.inputs, g.values .searchPath, (g.values .config).head?⟩

end Given

/-! ### Arguments -/

/-- What kind of command reads the arguments: its options, and whether it has inputs. -/
structure Form where
  options : List Opt
  hasInputs : Bool

/-- The state of reading: the option whose value is the next argument, and whether only inputs
follow. -/
structure Reading where
  given : Given
  pending : Option Opt
  onlyInputs : Bool

namespace Reading

/-- Nothing has been read. -/
def start : Reading := ⟨⟨[], []⟩, none, false⟩

/-- Reads an option with a value if one is attached. -/
def readOption (r : Reading) (o : Opt) (attached : Option String) : Except Stop Reading := do
  match o.hasValue, attached with
  | true, none => return { r with pending := some o }
  | false, some _ => throw .usage
  | _, _ => return { r with given := ← r.given.add o (attached.getD "") }

/-- Reads the letters behind one dash.  What follows the letter of an option with a value is its
value. -/
def readLetters (form : Form) (r : Reading) : List Char → Except Stop Reading
  | [] => .ok r
  | c :: cs =>
    match form.options.find? (·.short? = some c) with
    | none => .error .usage
    | some o =>
      if o.hasValue then
        match cs with
        | [] => r.readOption o none
        | '=' :: value => r.readOption o (some (String.ofList value))
        | value => r.readOption o (some (String.ofList value))
      else do (← r.readOption o none).readLetters form cs

/-- Reads the name behind two dashes, and a value behind an equals sign. -/
def readLong (form : Form) (r : Reading) (text : List Char) : Except Stop Reading :=
  let name := String.ofList (text.takeWhile (· ≠ '='))
  let attached :=
    match text.dropWhile (· ≠ '=') with
    | [] => none
    | _ :: value => some (String.ofList value)
  match form.options.find? (·.long = name) with
  | some o => r.readOption o attached
  | none => .error .usage

/-- Reads an argument that is no option. -/
def readInput (form : Form) (r : Reading) (arg : String) : Except Stop Reading :=
  if form.hasInputs then .ok { r with given := { r.given with inputs := r.given.inputs ++ [arg] } }
  else .error .usage

/-- Reads an argument. -/
def step (form : Form) (r : Reading) (arg : String) : Except Stop Reading :=
  if r.onlyInputs then r.readInput form arg
  else
    match arg.toList, r.pending with
    | '-' :: _ :: _, some _ => .error .usage
    | ['-', '-'], none => .ok { r with onlyInputs := true }
    | '-' :: '-' :: text, none => r.readLong form text
    | '-' :: c :: cs, none => r.readLetters form (c :: cs)
    | _, some o => do return ⟨← r.given.add o arg, none, false⟩
    | _, none => r.readInput form arg

end Reading

/-- Reads the arguments of a command. -/
def readArguments (form : Form) (args : List String) : Except Stop Given := do
  let r ← args.foldlM (Reading.step form) Reading.start
  if r.pending.isSome then throw .usage
  return r.given

/-! ### Command lines -/

/-- The options of all commands that read schemas. -/
def inputOptions : List Opt := [.searchPath, .config, .help]

/-- The names of the commands. -/
def names : List String := ["generate", "check", "ast", "targets"]

/-- Reads the command of a name with its arguments. -/
def readAction (name : String) (args : List String) : Except Stop Action :=
  match name with
  | "generate" => do
    let g ← readArguments ⟨.output :: .target :: .noAst :: inputOptions, true⟩ args
    return .generate (← g.toInputs) (g.values .output).head? (g.values .target) (g.has .noAst)
  | "check" => do
    let g ← readArguments ⟨inputOptions, true⟩ args
    return .check (← g.toInputs)
  | "ast" => do
    let g ← readArguments ⟨.module :: inputOptions, true⟩ args
    return .ast (← g.toInputs) (g.values .module).head?
  | "targets" => do
    let _ ← readArguments ⟨[.help], false⟩ args
    return .targets
  | _ => .error .usage

/-- How the command is used. -/
def usage : List String :=
  ["Usage: adlc <COMMAND>", "",
    "  generate <MODULES>... [-I <DIR>]... [-c <FILE>] [-o <DIR>] [-t <TARGET>]... [--no-ast]",
    "  check <MODULES>... [-I <DIR>]... [-c <FILE>]",
    "  ast <MODULES>... [-I <DIR>]... [-c <FILE>] [-m <MODULE>]",
    "  targets"]

/-- What a request for help with some topics leads to: there is help with at most one command. -/
def readHelp : List String → Stop
  | [] => .help
  | [topic] => if topic ∈ "help" :: names then .help else .usage
  | _ => .usage

/-- Reads a command line. -/
def read : List String → Except Stop Action
  | [] => .error .usage
  | "help" :: topics => .error (readHelp topics)
  | "--help" :: _ => .error .help
  | "--version" :: _ => .error .version
  | name :: args =>
    match name.toList with
    | '-' :: 'h' :: _ => .error .help
    | '-' :: 'V' :: _ => .error .version
    | _ => readAction name args

end Adl.Command
