import GoWeave.Text.Blank
import GoWeave.Text.Split

/-!
# Logging

A notice has a level and an origin. A filter is a list of directives, each of which admits notices
up to a level, perhaps only from origins whose name starts with a given text. The directive with the
longest text decides.
-/
namespace GoWeave.Command

inductive LogLevel where
  | error | warn | info | debug | trace
  deriving DecidableEq, Repr

namespace LogLevel

def rank : LogLevel → Nat
  | error => 1
  | warn => 2
  | info => 3
  | debug => 4
  | trace => 5

def text : LogLevel → String
  | error => "ERROR"
  | warn => "WARN"
  | info => "INFO"
  | debug => "DEBUG"
  | trace => "TRACE"

end LogLevel

structure Notice where
  level : LogLevel
  origin : String
  text : String
  deriving DecidableEq, Repr

def Notice.line (n : Notice) : String :=
  n.level.text ++ " " ++ n.origin ++ ": " ++ n.text ++ "\n"

/-- The highest rank that notices may have, nothing at all being rank zero. Without an origin the
directive is for all. -/
structure LogDirective where
  origin : Option String
  rank : Nat
  deriving DecidableEq, Repr

structure LogFilter where
  directives : List LogDirective
  deriving DecidableEq, Repr

namespace LogDirective

def asciiLower (c : Char) : Char :=
  if 'A' ≤ c ∧ c ≤ 'Z' then Char.ofNat (c.toNat + 32) else c

/-- A rank by its number, perhaps with leading zeros and a plus sign. -/
def rankOfDigits? (cs : List Char) : Option Nat :=
  let digits :=
    match cs with
    | '+' :: rest => rest
    | cs => cs
  if digits.isEmpty || !digits.all Char.isDigit then none
  else
    let n := digits.foldl (fun n c => n * 10 + (c.toNat - 48)) 0
    if n ≤ 5 then some n else none

/-- A rank by the name of a level, in any case, or by its number. -/
def rank? (cs : List Char) : Option Nat :=
  match String.ofList (cs.map asciiLower) with
  | "off" => some 0
  | "error" => some 1
  | "warn" => some 2
  | "info" => some 3
  | "debug" => some 4
  | "trace" => some 5
  | _ => rankOfDigits? cs

/-- The rank after an equals sign. None means all. -/
def rankAfter? (cs : List Char) : Option Nat :=
  if cs.isEmpty then some 5 else rank? cs

/-- What may follow the span of a directive. -/
def afterSpan? (origin : Option String) : List Char → Option LogDirective
  | [] => some ⟨origin, 5⟩
  | '=' :: cs => (rankAfter? cs).map (⟨origin, ·⟩)
  | _ => none

/-- A span, which ends with a bracket, and what follows it. -/
def span? (origin : Option String) (cs : List Char) : Option LogDirective :=
  match cs.dropWhile (· != ']') with
  | [] => none
  | _ :: rest => afterSpan? origin rest

/-- Whether a directive may start with a character. -/
def startsName (c : Char) : Bool :=
  c.isAlphanum || c == '-' || c == ':' || c == '_' || 0x80 ≤ c.toNat

def isDelimiter (c : Char) : Bool :=
  c == '=' || c == '['

/-- A directive: a level, the start of an origin, or both with an equals sign between them. Spans
are accepted and admit nothing by themselves. -/
def parse? (s : String) : Option LogDirective :=
  match s.toList.dropWhile Text.isBlankChar with
  | [] => none
  | '[' :: cs => (span? none cs).map fun d => { d with rank := 0 }
  | c :: _ =>
    if !startsName c then none
    else
      let name := s.toList.takeWhile (!isDelimiter ·)
      match s.toList.dropWhile (!isDelimiter ·) with
      | [] =>
        match rank? name with
        | some rank => some ⟨none, rank⟩
        | none => some ⟨some s, 5⟩
      | '=' :: cs => (rankAfter? cs).map (⟨some (String.ofList name), ·⟩)
      | _ :: cs => span? (some (String.ofList name)) cs

end LogDirective

namespace LogFilter

/-- Directives with commas between them. -/
def parse? (text : String) : Option LogFilter := do
  let found ← ((Text.split ',' text).filter (· ≠ "")).mapM LogDirective.parse?
  pure ⟨if found.isEmpty then [⟨none, 1⟩] else found⟩

/-- How closely a directive fits an origin. -/
def fit? (origin : String) (d : LogDirective) : Option Nat :=
  match d.origin with
  | none => some 0
  | some start => if start.toList.isPrefixOf origin.toList then some (start.length + 1) else none

/-- The rank admitted for an origin. Of equally close directives the last one counts. -/
def rankFor (f : LogFilter) (origin : String) : Nat :=
  (f.directives.foldl
    (fun (best : Nat × Nat) d =>
      match fit? origin d with
      | some fit => if best.1 ≤ fit then (fit, d.rank) else best
      | none => best)
    (0, 0)).2

def admits (f : LogFilter) (n : Notice) : Bool :=
  n.level.rank ≤ f.rankFor n.origin

end LogFilter

end GoWeave.Command
