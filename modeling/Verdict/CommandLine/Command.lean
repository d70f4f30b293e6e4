import Verdict.Archive.Loading
import Verdict.Build
import Verdict.CommandLine.Grammar
import Verdict.CommandLine.Log
import Verdict.Evaluation.Evaluator
import Verdict.Evaluation.Evidence

/-!
# Commands

The two tools: one compiles documents to an archive, the other evaluates an archive against
evidence. A command is a function from the file tree before it to what it prints and the file tree
after it.
-/

namespace Verdict

/-- What is evaluated in an archive. -/
inductive Target where
  | root
  | ruleset (key : VersionedId)
  | challenge (key : VersionedId)
  deriving DecidableEq, Repr

inductive Command where
  | compile (sources : String) (root : Reference) (output : String)
  | evaluate (archive : String) (target : Target) (evidence : String)
  deriving DecidableEq, Repr

/-- How a command ended: its exit code and the lines it printed. -/
structure Completion where
  code : Nat
  lines : List String
  deriving DecidableEq, Repr

namespace CommandLine

/-- A version on the command line: an integer that fits 32 bits without a sign, with an optional
sign. -/
def version? (text : String) : Option Version :=
  match text.toList with
  | '-' :: ds => if !ds.isEmpty && ds.all (· = '0') then some 0 else none
  | cs => Version.ofText? cs

def isVersion (text : String) : Bool := (version? text).isSome

def isKind (text : String) : Bool := (Kind.ofName? text).isSome

def isPath (text : String) : Bool := text ≠ ""

def anyText (_ : String) : Bool := true

def compileGrammar : Grammar where
  tool := "banyan-compile"
  about := "Compile Banyan DSL sources into a DAR archive"
  subject := "sources"
  subjectAbout := "Directory of JSON sources, or a .zip of them"
  options := [
    ⟨"root-kind", "Kind of the root artifact", isKind, false, some Kind.challenge.name⟩,
    ⟨"root-id", "Id of the root artifact", anyText, true, none⟩,
    ⟨"root-version", "Version of the root artifact", isVersion, false, some "1"⟩,
    ⟨"out-dir", "Directory the archive is written to", isPath, false, some defaultOutput⟩]

/-- The evidence of an evaluation that gives none. -/
def defaultEvidence : String := "\x7b\x7d"

def evaluateGrammar : Grammar where
  tool := "banyan-eval"
  about := "Evaluate a DAR archive against evidence"
  subject := "dar"
  subjectAbout := "Path to the DAR archive"
  options := [
    ⟨"ruleset", "Ruleset to evaluate", anyText, false, none⟩,
    ⟨"challenge", "Challenge to evaluate; defaults to the archive root", anyText, false, none⟩,
    ⟨"version", "Version of the ruleset or challenge", isVersion, false, some "1"⟩,
    ⟨"evidence", "Evidence as a JSON object", anyText, false, some defaultEvidence⟩]

/-- The value of a version option. -/
def versionOf (a : Arguments) (name : String) : Version :=
  ((a.value? name).bind version?).getD 1

/-- The command that the arguments of the compiling tool ask for. -/
def compileCommand (arguments : List String) : Except Stop Command := do
  let a ← compileGrammar.read arguments
  let kind := ((a.value? "root-kind").bind Kind.ofName?).getD .challenge
  let root : Reference := ⟨kind, (a.value? "root-id").getD "", versionOf a "root-version"⟩
  return .compile (a.subject.getD "") root ((a.value? "out-dir").getD defaultOutput)

/-- The command that the arguments of the evaluating tool ask for. Only one target can be named. -/
def evaluateCommand (arguments : List String) : Except Stop Command := do
  let a ← evaluateGrammar.read arguments
  let version := versionOf a "version"
  let target ← match a.value? "ruleset", a.value? "challenge" with
    | some _, some _ => throw .usage
    | some id, none => pure (.ruleset ⟨id, version⟩)
    | none, some id => pure (.challenge ⟨id, version⟩)
    | none, none => pure .root
  return .evaluate (a.subject.getD "") target ((a.value? "evidence").getD defaultEvidence)

/-- The tools by name. -/
def tools : List (Grammar × (List String → Except Stop Command)) :=
  [(compileGrammar, compileCommand), (evaluateGrammar, evaluateCommand)]

/-- Ends a command with an error in the log. -/
def failure (message : String) : Completion := ⟨1, Log.errorLines (Log.escape message)⟩

/-- A message with the causes of the error behind it. -/
def chain (message : String) (cause : Option String) : String :=
  match cause with
  | some cause => message ++ ": " ++ cause
  | none => message

/-- Compiles documents to an archive. -/
def runCompile (builtAt : UInt64) (tree : FileTree) (sources : String) (root : Reference)
    (output : String) : Completion × FileTree :=
  match Library.load tree sources with
  | .error e => (failure ("Failed to read sources from " ++ sources ++ ": " ++ e.message), tree)
  | .ok library =>
    let (report, tree) := build tree builtAt library root output
    if report.isSuccess then (⟨0, []⟩, tree)
    else
      let summary := "compilation failed root=" ++ root.text ++ " errors="
        ++ toString report.errors.length
      let details := "\n".intercalate (report.diagnostics.map Diagnostic.text)
      (⟨1, Log.errorLines summary ++ Log.errorLines (Log.escape details)⟩, tree)

/-- The answer of an archive for a target. -/
def answer (archive : LoadedArchive) (target : Target) (evidence : Evidence) :
    Except EvaluationError Bool :=
  let evaluator := Evaluator.new archive
  let challenge (key : VersionedId) :=
    (evaluator.evaluateChallenge key evidence.find?).2.result.map ChallengeOutcome.passed
  match target with
  | .root => challenge archive.root
  | .challenge key => challenge key
  | .ruleset key => (evaluator.evaluate key evidence.find?).2.result

/-- Evaluates an archive against evidence. -/
def runEvaluate (tree : FileTree) (archive : String) (target : Target) (evidence : String) :
    Completion :=
  match LoadedArchive.load tree archive with
  | .error e => failure (chain ("failed to load " ++ archive ++ ": " ++ e.message) e.cause?)
  | .ok loaded =>
    match Evidence.ofText evidence with
    | .error e => failure (chain ("invalid evidence: " ++ e.message) e.cause?)
    | .ok evidence =>
      match answer loaded target evidence with
      | .error e => failure e.message
      | .ok passed => ⟨0, [toString passed]⟩

/-- Runs a command on a file tree. -/
def run (builtAt : UInt64) (tree : FileTree) : Command → Completion × FileTree
  | .compile sources root output => runCompile builtAt tree sources root output
  | .evaluate archive target evidence => (runEvaluate tree archive target evidence, tree)

/-- Runs a tool with its arguments; nothing if there is no tool of that name. -/
def call? (builtAt : UInt64) (tree : FileTree) (tool : String) (arguments : List String) :
    Option (Completion × FileTree) :=
  (tools.find? fun t => t.1.tool = tool).map fun (grammar, command) =>
    match command arguments with
    | .ok c => run builtAt tree c
    | .error .help => (⟨0, grammar.help⟩, tree)
    | .error .usage => (⟨2, []⟩, tree)

end CommandLine
end Verdict
