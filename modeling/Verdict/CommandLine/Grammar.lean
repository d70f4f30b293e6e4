/-!
# Command line grammars

The arguments of a tool: one positional argument, and options that take one value each, written
`--name value` or `--name=value`, in any order and each at most once. After `--` everything is
positional. A value that stands apart from its option does not start with a dash, unless it is a
dash alone.
-/

namespace Verdict.CommandLine

/-- An option that takes one value. -/
structure OptionSpec where
  name : String
  about : String
  /-- Whether a value is one of the option's values. -/
  accepts : String → Bool
  required : Bool
  /-- The value without the option, if there is one to show. -/
  default? : Option String

structure Grammar where
  tool : String
  about : String
  /-- The positional argument, which is a path. -/
  subject : String
  subjectAbout : String
  options : List OptionSpec

/-- Why arguments were not read to the end. -/
inductive Stop where
  | help
  | usage
  deriving DecidableEq, Repr

structure Arguments where
  subject : Option String
  /-- The values of the options that were given. -/
  values : List (String × String)
  deriving Repr

namespace Arguments

def value? (a : Arguments) (name : String) : Option String := a.values.lookup name

end Arguments

/-- Arguments read part way. -/
structure Reading where
  arguments : Arguments
  /-- The option whose value comes next. -/
  pending : Option OptionSpec
  /-- Whether `--` has been met. -/
  literal : Bool

namespace Reading

/-- Nothing read yet. -/
def start : Reading := ⟨⟨none, []⟩, none, false⟩

/-- Takes the value of an option. -/
def takeValue (r : Reading) (o : OptionSpec) (value : String) : Except Stop Reading :=
  if (r.arguments.value? o.name).isSome || !o.accepts value then .error .usage
  else .ok { r with
    arguments := { r.arguments with values := r.arguments.values ++ [(o.name, value)] }
    pending := none }

/-- Takes the positional argument; a path is never empty. -/
def takeSubject (r : Reading) (value : String) : Except Stop Reading :=
  if r.arguments.subject.isSome || value = "" then .error .usage
  else .ok { r with arguments := { r.arguments with subject := some value } }

/-- Takes an argument that starts with two dashes, without them. -/
def takeLong (g : Grammar) (r : Reading) (cs : List Char) : Except Stop Reading :=
  let name := String.ofList (cs.takeWhile fun c => c ≠ '=')
  let attached := (cs.dropWhile fun c => c ≠ '=').tail?
  match g.options.find? fun o => o.name = name, attached with
  | some o, some value => r.takeValue o (String.ofList value)
  | some o, none =>
    if (r.arguments.value? o.name).isSome then .error .usage else .ok { r with pending := some o }
  | none, none => .error (if name = "help" then .help else .usage)
  | none, some _ => .error .usage

/-- Takes an argument where no value is due. -/
def takeArgument (g : Grammar) (r : Reading) (argument : String) : Except Stop Reading :=
  match argument.toList with
  | ['-', '-'] => .ok { r with literal := true }
  | '-' :: '-' :: cs => r.takeLong g cs
  | '-' :: c :: _ => .error (if c = 'h' then .help else .usage)
  | _ => r.takeSubject argument

/-- Whether an argument can only be an option. -/
def isDashed (argument : String) : Bool :=
  match argument.toList with
  | '-' :: _ :: _ => true
  | _ => false

/-- Takes the next argument. -/
def step (g : Grammar) (r : Reading) (argument : String) : Except Stop Reading :=
  match r.pending with
  | some o => if isDashed argument then .error .usage else r.takeValue o argument
  | none => if r.literal then r.takeSubject argument else r.takeArgument g argument

end Reading

/-- Reads arguments. Afterwards the positional argument and every required option are there. -/
def Grammar.read (g : Grammar) (arguments : List String) : Except Stop Arguments := do
  let r ← arguments.foldlM (Reading.step g) .start
  let complete := r.pending.isNone && r.arguments.subject.isSome &&
    g.options.all fun o => !o.required || (r.arguments.value? o.name).isSome
  if complete then return r.arguments else throw .usage

/-! ## Help -/

/-- How the value of an argument is named in a usage line. -/
def placeholder (name : String) : String :=
  "<" ++ String.ofList (name.toList.map fun c => if c = '-' then '_' else c.toUpper) ++ ">"

/-- An option with its value. -/
def OptionSpec.usage (o : OptionSpec) : String := "--" ++ o.name ++ " " ++ placeholder o.name

/-- The line that shows how a tool is called. -/
def Grammar.usage (g : Grammar) : String :=
  " ".intercalate (["Usage:", g.tool, "[OPTIONS]"] ++
    (g.options.filter (·.required)).map OptionSpec.usage ++ [placeholder g.subject])

/-- Two columns, the second aligned. -/
def columns (rows : List (String × String)) : List String :=
  let width := (rows.map fun r => r.1.length).foldl max 0
  rows.map fun r => r.1 ++ String.ofList (List.replicate (width + 2 - r.1.length) ' ') ++ r.2

/-- What a tool says about itself. -/
def Grammar.help (g : Grammar) : List String :=
  let option (o : OptionSpec) :=
    ("      " ++ o.usage,
      o.about ++ match o.default? with
        | some value => " [default: " ++ value ++ "]"
        | none => "")
  [g.about, "", g.usage, "", "Arguments:"] ++
    columns [("  " ++ placeholder g.subject, g.subjectAbout)] ++
    ["", "Options:"] ++ columns (g.options.map option ++ [("  -h, --help", "Print help")])

end Verdict.CommandLine
