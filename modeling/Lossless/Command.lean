import Lossless.Calculator
import Lossless.Config.Load
import Lossless.Diagnostic
import Lossless.Token.Json
import Lossless.Tree.Outline

/-!
# The command

Two commands show how a file is read: `tokens` its tokens under some configuration,
and `tree` its tree as a calculator program, with diagnostics.  What a command does is
a function of its arguments and the files: the texts for the two output streams and an
exit status, which is 0 for valid input, 1 for invalid input and 2 if a file or a
configuration cannot be read.
-/

namespace Lossless

/-- What a command does. -/
structure CommandResult where
  status : Nat
  output : String
  errorOutput : String
deriving DecidableEq, Repr

/-- What a command is asked to do. -/
inductive Command where
  | tokens (path : String) (config : Option String) (json : Bool)
  | tree (path : String) (outline : OutlineOptions) (trace : Bool)
deriving DecidableEq, Repr

namespace Command

/-- The arguments of a command, as far as they have been read. -/
structure Arguments where
  path : Option String := none
  config : Option String := none
  json : Bool := false
  noTokens : Bool := false
  noTrivia : Bool := false
  trace : Bool := false

/-- Reads the arguments of `tokens`. -/
def tokensArguments? (a : Arguments) : List String → Option Arguments
  | [] => some a
  | "--json" :: rest => tokensArguments? { a with json := true } rest
  | "--config" :: file :: rest => tokensArguments? { a with config := some file } rest
  | "-c" :: file :: rest => tokensArguments? { a with config := some file } rest
  | arg :: rest =>
    if "--config=".toList.isPrefixOf arg.toList then
      tokensArguments? { a with config := some (String.ofList (arg.toList.drop 9)) } rest
    else if "-c".toList.isPrefixOf arg.toList then
      let file := arg.toList.drop 2
      let file := if file.head? == some '=' then file.drop 1 else file
      tokensArguments? { a with config := some (String.ofList file) } rest
    else if a.path.isNone && !"-".toList.isPrefixOf arg.toList then
      tokensArguments? { a with path := some arg } rest
    else
      none

/-- Reads the arguments of `tree`. -/
def treeArguments? (a : Arguments) : List String → Option Arguments
  | [] => some a
  | "--no-tokens" :: rest => treeArguments? { a with noTokens := true } rest
  | "--no-trivia" :: rest => treeArguments? { a with noTrivia := true } rest
  | "--trace" :: rest => treeArguments? { a with trace := true } rest
  | arg :: rest =>
    if a.path.isNone && !"-".toList.isPrefixOf arg.toList then
      treeArguments? { a with path := some arg } rest
    else
      none

/-- The command that a list of arguments asks for. -/
def ofArguments? : List String → Option Command
  | "tokens" :: rest => do
    let a ← tokensArguments? { } rest
    some (.tokens (← a.path) a.config a.json)
  | "tree" :: rest => do
    let a ← treeArguments? { } rest
    some (.tree (← a.path) ⟨!a.noTokens, !a.noTrivia⟩ a.trace)
  | _ => none

/-- Lines, every one of them ended. -/
def lines (ls : List String) : String :=
  String.join (ls.map (· ++ "\n"))

/-- The result of a command that could not begin. -/
def refusal (message : String) : CommandResult :=
  ⟨2, "", "Error: " ++ message ++ "\n"⟩

/-- The exit status for valid and for invalid input. -/
def statusOf (valid : Bool) : Nat :=
  if valid then 0 else 1

/-- Shows the tokens of a text. -/
def showTokens (source : String) (config : Config) (json : Bool) : CommandResult :=
  let tokens := tokenize source config none
  let output := if json then lines [Token.toJson tokens] else lines (tokens.map (·.display))
  ⟨statusOf (tokens.all (·.kind != .error)), output, ""⟩

/-- Shows the tree of a text and what is wrong with it. -/
def showTree (source : String) (outline : OutlineOptions) (trace : Bool) : CommandResult :=
  let session := Calculator.parse source trace
  let built := Calculator.treeOf session
  let events :=
    match session.trace with
    | some events => events ++ built.events
    | none => []
  let text := Lines.ofText source.toList
  let diagnostics := Diagnostic.ofTree text built.root
  let report := if diagnostics.isEmpty then [] else "" :: diagnostics.map (·.render text)
  let anomalies := built.anomalies.map fun a => "anomaly: " ++ a.display
  ⟨statusOf built.valid, built.root.outline outline ++ lines (report ++ anomalies),
    lines (events.map (·.display))⟩

/-- Runs a command over some files. -/
def run (files : Files) : Command → CommandResult
  | tokens path config json =>
    match files path with
    | .error failure => refusal ("Cannot read " ++ path ++ ": " ++ failure.message)
    | .ok source =>
      match config with
      | none => showTokens source .curlyBrace json
      | some file =>
        match Config.load files file with
        | .error e => refusal e.message
        | .ok c => showTokens source c json
  | tree path outline trace =>
    match files path with
    | .error failure => refusal ("Cannot read " ++ path ++ ": " ++ failure.message)
    | .ok source => showTree source outline trace

end Command

end Lossless
