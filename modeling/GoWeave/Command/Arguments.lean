/-!
# Command-line arguments

An invocation names a command and gives its options. Arguments are taken from left to right, and the
first that asks for help or cannot be understood decides.
-/
namespace GoWeave.Command

inductive Opt where
  | file | tag | package | output | config | report | logLevel | logDir | force | help
  deriving DecidableEq, Repr

namespace Opt

def ofLong? : String → Option Opt
  | "file" => some file
  | "tag" => some tag
  | "package" => some package
  | "output" => some output
  | "config" => some config
  | "report" => some report
  | "log-level" => some logLevel
  | "log-dir" => some logDir
  | "force" => some force
  | "help" => some help
  | _ => none

def ofShort? : Char → Option Opt
  | 'f' => some file
  | 'r' => some tag
  | 'p' => some package
  | 'o' => some output
  | 'h' => some help
  | _ => none

def takesValue : Opt → Bool
  | force => false
  | help => false
  | _ => true

/-- Whether the option may be given more than once. -/
def repeats : Opt → Bool
  | file => true
  | tag => true
  | _ => false

/-- Whether the value is a path, which may not be empty. -/
def takesPath : Opt → Bool
  | file => true
  | output => true
  | config => true
  | report => true
  | logDir => true
  | _ => false

/-- The options that may stand before and after the command. -/
def shared : List Opt :=
  [logLevel, logDir, help]

def ofMerge : List Opt :=
  [file, tag, package, output, config, report] ++ shared

def ofInit : List Opt :=
  force :: shared

end Opt

/-- Why there is nothing to run. -/
inductive Refusal where
  | help
  | usage
  deriving DecidableEq, Repr

/-- An argument by its looks. -/
inductive Shape where
  | plain
  /-- The argument after which nothing is an option. -/
  | divider
  | option (opt : Option Opt) (attached : Option String)
  deriving DecidableEq, Repr

namespace Shape

/-- The name of a long option and the value after its equals sign. -/
def splitLong (cs : List Char) : String × Option String :=
  let name := cs.takeWhile (· != '=')
  match cs.dropWhile (· != '=') with
  | [] => (String.ofList name, none)
  | _ :: value => (String.ofList name, some (String.ofList value))

/-- The value attached to a short option, perhaps with an equals sign. -/
def attachedShort : List Char → Option String
  | [] => none
  | '=' :: value => some (String.ofList value)
  | value => some (String.ofList value)

def of (arg : String) : Shape :=
  match arg.toList with
  | ['-', '-'] => divider
  | '-' :: '-' :: cs =>
    let (name, attached) := splitLong cs
    option (Opt.ofLong? name) attached
  | '-' :: c :: cs =>
    let opt := Opt.ofShort? c
    option opt (if opt.any Opt.takesValue then attachedShort cs else none)
  | _ => plain

end Shape

/-- The options read so far, in order. -/
abbrev Given := List (Opt × String)

namespace Given

/-- One more option. -/
def add (given : Given) (opt : Opt) (value : String) : Except Refusal Given :=
  if opt.takesPath && value.isEmpty then .error .usage
  else if !opt.repeats && given.any (·.1 == opt) then .error .usage
  else .ok (given ++ [(opt, value)])

def all (given : Given) (opt : Opt) : List String :=
  (given.filter (·.1 == opt)).map (·.2)

def get? (given : Given) (opt : Opt) : Option String :=
  (given.all opt).head?

end Given

/-- The options up to the first argument that is none, and the arguments from there on. A value that
looks like an option must be attached. -/
def takeOptions (valid : List Opt) (given : Given) :
    List String → Except Refusal (Given × List String)
  | [] => .ok (given, [])
  | arg :: args =>
    match Shape.of arg with
    | .plain => .ok (given, arg :: args)
    | .divider => .ok (given, arg :: args)
    | .option none _ => .error .usage
    | .option (some opt) attached =>
      if !valid.contains opt then .error .usage
      else if opt.takesValue then
        match attached with
        | some value =>
          match given.add opt value with
          | .error e => .error e
          | .ok given => takeOptions valid given args
        | none =>
          match args with
          | [] => .error .usage
          | value :: args =>
            if Shape.of value ≠ .plain then .error .usage
            else
              match given.add opt value with
              | .error e => .error e
              | .ok given => takeOptions valid given args
      else if attached.isSome then .error .usage
      else if opt = .help then .error .help
      else
        match given.add opt "" with
        | .error e => .error e
        | .ok given => takeOptions valid given args

/-! ## Invocations -/

structure MergeArgs where
  files : List String
  tags : List String
  package : Option String
  output : Option String
  config : Option String
  report : Option String
  deriving DecidableEq, Repr

inductive Task where
  | merge (args : MergeArgs)
  | check (args : MergeArgs)
  | init (path : String) (force : Bool)
  deriving DecidableEq, Repr

/-- A task with the log options, of which those after the command count first. -/
structure Invocation where
  task : Task
  logLevel : Option String
  logDir : Option String
  deriving DecidableEq, Repr

namespace Invocation

def ofGiven (outer inner : Given) (task : Task) : Invocation :=
  ⟨task, inner.get? .logLevel <|> outer.get? .logLevel, inner.get? .logDir <|> outer.get? .logDir⟩

/-- The options of a merge, after which nothing may follow. -/
def mergeArgs (args : List String) : Except Refusal (Given × MergeArgs) := do
  let (given, rest) ← takeOptions Opt.ofMerge [] args
  if rest = [] ∨ rest = ["--"] then
    pure (given,
      ⟨given.all .file, given.all .tag, given.get? .package, given.get? .output,
        given.get? .config, given.get? .report⟩)
  else throw .usage

/-- The path and the options of a new settings file. -/
def initArgs (args : List String) : Except Refusal (Given × List String) := do
  let (given, rest) ← takeOptions Opt.ofInit [] args
  match rest with
  | [] => pure (given, [])
  | "--" :: paths => pure (given, paths)
  | path :: rest =>
    let (given, rest) ← takeOptions Opt.ofInit given rest
    match rest with
    | [] => pure (given, [path])
    | "--" :: paths => pure (given, path :: paths)
    | more => pure (given, path :: more)

def initTask (args : List String) : Except Refusal (Given × Task) := do
  let (given, paths) ← initArgs args
  let force := given.any (·.1 == .force)
  match paths with
  | [] => pure (given, .init "srcmerge.json" force)
  | [path] => if path.isEmpty then throw .usage else pure (given, .init path force)
  | _ => throw .usage

def commandNames : List String :=
  ["merge", "check", "init", "help"]

/-- What a list of arguments asks for. -/
def parse (args : List String) : Except Refusal Invocation := do
  let (outer, rest) ← takeOptions Opt.shared [] args
  match rest with
  | "merge" :: args =>
    let (inner, args) ← mergeArgs args
    pure (ofGiven outer inner (.merge args))
  | "check" :: args =>
    let (inner, args) ← mergeArgs args
    pure (ofGiven outer inner (.check args))
  | "init" :: args =>
    let (inner, task) ← initTask args
    pure (ofGiven outer inner task)
  | ["help"] => throw .help
  | ["help", name] => throw (if commandNames.contains name then .help else .usage)
  | _ => throw .usage

end Invocation

end GoWeave.Command
