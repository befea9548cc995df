import EntityGraph.Files.Path

/-!
# Arguments

What the arguments of the command line ask for. A command is followed by its options and by one path;
`--config` may stand before the command as well.

* an option and its value are two arguments, or one with an equals sign between them; only a value with
  an equals sign may begin with a dash;
* after `--` no argument is an option;
* each option is given at most once, except `--name`, and no path is empty.

`Request.read?` reads the arguments from left to right, and gives nothing where they do not fit.
-/

namespace EntityGraph.CommandLine

inductive Command where
  | extract (path : Path) (root : Option Path) (pretty : Bool)
  | imports (file : Path) (root : Option Path)
  | symbols (file : Path) (names : List String)
  | stats (path : Path)
  deriving DecidableEq

inductive Request where
  | version
  | run (command : Command) (config : Option Path)
  deriving DecidableEq

inductive CommandName where
  | extract
  | imports
  | symbols
  | stats
  deriving DecidableEq

def CommandName.ofText? : String → Option CommandName
  | "extract" => some .extract
  | "imports" => some .imports
  | "symbols" => some .symbols
  | "stats" => some .stats
  | _ => none

/-! ## Single arguments -/

/-- Whether an argument is written like an option. A dash alone is not. -/
def isDashed (argument : String) : Bool :=
  argument.toList.head? == some '-' && argument != "-"

/-- An option and its value, when an equals sign joins them. -/
def joined? (argument : String) : Option (String × String) :=
  let text := argument.toList
  let name := text.takeWhile (· ≠ '=')
  if ['-', '-'].isPrefixOf text ∧ name.length < text.length then
    some (String.ofList name, String.ofList (text.drop (name.length + 1)))
  else none

/-- Whether an argument asks for the version. Letters after the short form are not looked at. -/
def asksVersion (argument : String) : Bool :=
  argument == "--version" || ['-', 'V'].isPrefixOf argument.toList

def path? (text : String) : Option Path :=
  if text = "" then none else some ⟨text⟩

/-- A setting that was not made before, made now. -/
def setOnce {α : Type} (before : Option α) (value : Option α) : Option (Option α) :=
  if before.isSome then none else value.map some

/-! ## Arguments of a command -/

/-- What the arguments read so far have given. -/
structure Given where
  config : Option Path
  root : Option Path
  pretty : Bool
  names : List String
  path : Option Path

namespace Given

def nothing : Given :=
  ⟨none, none, false, [], none⟩

/-- The option of this name, given with a value. -/
def setOption? (command : CommandName) (name value : String) (given : Given) : Option Given :=
  match name, command with
  | "--config", _ => (setOnce given.config (path? value)).map ({ given with config := · })
  | "--root", .extract | "--root", .imports =>
    (setOnce given.root (path? value)).map ({ given with root := · })
  | "--name", .symbols => some { given with names := given.names ++ [value] }
  | _, _ => none

def setPretty? (command : CommandName) (given : Given) : Option Given :=
  if command = .extract ∧ !given.pretty then some { given with pretty := true } else none

def setPath? (given : Given) (text : String) : Option Given :=
  (setOnce given.path (path? text)).map ({ given with path := · })

/-- Reads the arguments after a command. -/
def read? (command : CommandName) (given : Given) : List String → Option Given
  | [] => some given
  | argument :: rest =>
    if argument = "--" then rest.foldlM setPath? given
    else if argument = "--pretty" then
      (given.setPretty? command).bind fun given => read? command given rest
    else
      match joined? argument with
      | some (name, value) =>
        (given.setOption? command name value).bind fun given => read? command given rest
      | none =>
        if isDashed argument then
          match rest with
          | [] => none
          | value :: rest =>
            if isDashed value then none
            else
              (given.setOption? command argument value).bind fun given => read? command given rest
        else (given.setPath? argument).bind fun given => read? command given rest

/-- The command with what was given; a path that it needs must be there. -/
def command? (given : Given) : CommandName → Option Command
  | .extract => some (.extract (given.path.getD ⟨"."⟩) given.root given.pretty)
  | .imports => given.path.map (.imports · given.root)
  | .symbols => given.path.map (.symbols · given.names)
  | .stats => some (.stats (given.path.getD ⟨"."⟩))

end Given

/-! ## Whole command lines -/

namespace Request

/-- The request for a command with its arguments. A configuration after the command replaces `config`,
the one before. -/
def ofCommand? (config : Option Path) (name : CommandName) (arguments : List String) :
    Option Request := do
  let given ← Given.nothing.read? name arguments
  let command ← given.command? name
  return .run command (given.config.or config)

/-- Reads arguments before which `config` was given. -/
def readFrom? (config : Option Path) : List String → Option Request
  | [] => none
  | argument :: rest =>
    if asksVersion argument then some .version
    else
      match CommandName.ofText? argument with
      | some name => ofCommand? config name rest
      | none =>
        match joined? argument with
        | some (name, value) =>
          if name = "--config" then
            (setOnce config (path? value)).bind fun config => readFrom? config rest
          else none
        | none =>
          if argument = "--config" then
            match rest with
            | [] => none
            | value :: rest =>
              if isDashed value then none
              else (setOnce config (path? value)).bind fun config => readFrom? config rest
          else none

def read? (arguments : List String) : Option Request :=
  readFrom? none arguments

end Request

end EntityGraph.CommandLine
